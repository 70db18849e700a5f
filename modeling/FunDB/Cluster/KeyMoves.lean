import FunDB.Cluster.ShardOwnership

/-! # Keys that move

Which node serves a key before and after a topology change, and which of the
moves the returned migrations report. -/

namespace FunDB.Cluster.ShardMap

open HashRing

/-- The owner of the shard that a key belongs to. -/
def servingNode (map : ShardMap) (keyHash : UInt64) : Option NodeId :=
  (map.successorShard keyHash).bind map.nodeForShard

def servingEntry (map : ShardMap) (keyHash : UInt64) : Option RingEntry :=
  successor RingEntry.place map.ring keyHash.toNat

/-- The first ring entry from the key on that belongs to another node. -/
def nextEntryWithout (map : ShardMap) (node : NodeId) (keyHash : UInt64) :
    Option RingEntry :=
  (walk RingEntry.place map.ring keyHash.toNat).find? fun entry => entry.nodeId ≠ node

namespace Consistent

variable {map : ShardMap}

theorem servingNode_eq (consistent : map.Consistent) (keyHash : UInt64) :
    map.servingNode keyHash = (map.servingEntry keyHash).map RingEntry.nodeId := by
  rw [servingNode, servingEntry, successorShard_eq]
  cases found : successor RingEntry.place map.ring keyHash.toNat with
  | none => rfl
  | some entry => exact consistent.owned entry (mem_of_successor found)

/-! ## An added node -/

section Add

variable {after : ShardMap} {sorting : PositionSort RingEntry.place} {node : NodeId}
variable {addr : SocketAddr} {migrations : List ShardMigration}

/-- On the new ring the other nodes have their entries as before. -/
theorem remaining_of_added (consistent : map.Consistent)
    (distinct : Distinct RingEntry.place map.ring) (unknown : node ∉ map.nodeAddrs)
    (added : map.addNode sorting node addr = some (migrations, after)) :
    after.remaining node = map.ring := by
  rcases addNode_cases added with
    ⟨known, _⟩ | ⟨_, ring, _, perm, sorted, _, _, rfl⟩
  · exact absurd known unknown
  · refine filter_eq_of_perm _ consistent.sorted distinct sorted perm ?_ ?_
    · intro entry member
      simpa using consistent.nodeId_ne unknown member
    · intro entry member
      rcases List.mem_map.mp member with ⟨replica, _, rfl⟩
      simp

/-- The entries of the added node are its virtual nodes. -/
theorem mem_ring_of_added (consistent : map.Consistent) (unknown : node ∉ map.nodeAddrs)
    (added : map.addNode sorting node addr = some (migrations, after)) (entry : RingEntry) :
    entry ∈ after.ring ∧ entry.nodeId = node ↔ entry ∈ map.virtualEntries node := by
  rcases addNode_cases added with
    ⟨known, _⟩ | ⟨_, ring, _, perm, _, _, _, rfl⟩
  · exact absurd known unknown
  · rw [perm.mem_iff, List.mem_append]
    constructor
    · intro ofNode
      rcases ofNode with ⟨isOld | isNew, same⟩
      · exact absurd same (consistent.nodeId_ne unknown isOld)
      · exact isNew
    · intro isNew
      rcases List.mem_map.mp isNew with ⟨replica, _, shape⟩
      exact ⟨.inr isNew, by rw [← shape]⟩

/-- Its shards are new, so no shard changes its owner. -/
theorem migrations_of_added (consistent : map.Consistent)
    (added : map.addNode sorting node addr = some (migrations, after)) :
    migrations = [] := by
  rcases addNode_cases added with
    ⟨_, none, _⟩ | ⟨_, ring, _, perm, _, rfl, rfl, _⟩
  · exact none
  · refine assignShards_migrations (some node) (consistent.distinct_added node perm) ?_
    intro entry member owner owned
    rcases List.mem_append.mp (perm.mem_iff.mp member) with isOld | isNew
    · rw [consistent.owned entry isOld] at owned
      exact (Option.some.inj owned).symm
    · rcases List.mem_map.mp isNew with ⟨replica, _, rfl⟩
      have below := consistent.ownersAllocated _ owner owned
      exact absurd below (Nat.not_lt.mpr (Nat.le_add_right _ _))

theorem servingNode_added (consistent : map.Consistent)
    (distinct : Distinct RingEntry.place map.ring)
    (added : map.addNode sorting node addr = some (migrations, after)) (keyHash : UInt64) :
    after.servingNode keyHash = map.servingNode keyHash ∨
      after.servingNode keyHash = some node := by
  by_cases known : node ∈ map.nodeAddrs
  · rcases addNode_cases added with ⟨_, _, rfl⟩ | ⟨unknown, _⟩
    · exact .inl rfl
    · exact absurd known unknown
  · have sameOthers := consistent.remaining_of_added distinct known added
    rw [(consistent.addNode added).servingNode_eq, consistent.servingNode_eq]
    cases found : after.servingEntry keyHash with
    | none =>
        have empty := successor_eq_none_iff.mp found
        rw [remaining, empty] at sameOthers
        left
        rw [servingEntry, ← sameOthers]
        rfl
    | some entry =>
        by_cases ofNode : entry.nodeId = node
        · right
          rw [← ofNode]
          rfl
        · left
          have before : map.servingEntry keyHash = some entry := by
            rw [servingEntry, ← sameOthers]
            exact successor_filter_of_kept _ found (by simpa using ofNode)
          rw [before]

end Add

/-! ## A removed node -/

theorem removeNode_ring (consistent : map.Consistent) (node : NodeId) :
    (map.removeNode node).2.ring = map.remaining node := by
  rcases removeNode_cases map node with
    ⟨unknown, result⟩ | ⟨_, empty, result⟩ | ⟨_, _, _, _, result⟩ <;> rw [result]
  · refine (List.filter_eq_self.mpr fun entry member => ?_).symm
    simpa using consistent.nodeId_ne unknown member
  · exact empty.symm

theorem servingEntry_removeNode (consistent : map.Consistent) (node : NodeId)
    (keyHash : UInt64) :
    (map.removeNode node).2.servingEntry keyHash = map.nextEntryWithout node keyHash := by
  rw [servingEntry, consistent.removeNode_ring, remaining, successor_filter, nextEntryWithout]

/-- A key that the removed node did not serve keeps its ring entry. -/
theorem nextEntryWithout_of_not_served (consistent : map.Consistent) {node : NodeId}
    {keyHash : UInt64} (nonempty : map.ring ≠ [])
    (notServed : map.servingNode keyHash ≠ some node) :
    map.nextEntryWithout node keyHash = map.servingEntry keyHash := by
  rcases exists_successor RingEntry.place nonempty keyHash.toNat with ⟨entry, found⟩
  have ofOther : entry.nodeId ≠ node := by
    intro ofNode
    rw [consistent.servingNode_eq, servingEntry, found, Option.map_some, ofNode] at notServed
    exact notServed rfl
  rw [servingEntry, found, nextEntryWithout, ← successor_filter]
  exact successor_filter_of_kept _ found (by simpa using ofOther)

end Consistent

/-- Adding a node moves keys to it only; removing a node moves only the keys
that it served, each to the node of the next ring entry not of the removed node. -/
theorem keys_move_minimally {virtualNodes : Nat} (positive : 1 ≤ virtualNodes)
    {map : ShardMap} (reachable : Reachable virtualNodes map)
    (distinct : Distinct RingEntry.place map.ring) (keyHash : UInt64) (node : NodeId) :
    (∀ sorting addr migrations after,
      map.addNode sorting node addr = some (migrations, after) →
        after.servingNode keyHash = map.servingNode keyHash ∨
          after.servingNode keyHash = some node) ∧
    ((∃ other ∈ map.nodeAddrs, other ≠ node) →
      (map.servingNode keyHash ≠ some node →
        (map.removeNode node).2.successorShard keyHash = map.successorShard keyHash ∧
          (map.removeNode node).2.servingNode keyHash = map.servingNode keyHash) ∧
      (map.servingNode keyHash = some node →
        ∃ entry, map.nextEntryWithout node keyHash = some entry ∧
          (map.removeNode node).2.servingNode keyHash = some entry.nodeId)) := by
  have consistent := reachable.consistent
  constructor
  · intro sorting addr migrations after added
    exact consistent.servingNode_added distinct added keyHash
  · intro others
    rcases others with ⟨other, present, different⟩
    have served : 1 ≤ map.virtualNodes := by rwa [reachable.virtualNodes_eq]
    rcases consistent.exists_remaining served present different with ⟨staying, isStaying, _⟩
    have shard := consistent.servingEntry_removeNode node keyHash
    rw [(consistent.removeNode node).servingNode_eq, shard]
    constructor
    · intro notServed
      have onRing := List.ne_nil_of_mem (mem_remaining.mp isStaying).1
      have kept := consistent.nextEntryWithout_of_not_served onRing notServed
      rw [servingEntry] at shard
      rw [successorShard_eq, successorShard_eq, shard, kept, consistent.servingNode_eq, servingEntry]
      exact ⟨rfl, rfl⟩
    · intro _
      have nonempty := List.ne_nil_of_mem isStaying
      rcases exists_successor RingEntry.place nonempty keyHash.toNat with ⟨entry, found⟩
      rw [remaining, successor_filter] at found
      have next : map.nextEntryWithout node keyHash = some entry := found
      exact ⟨entry, next, by rw [next, Option.map_some]⟩

theorem keys_move_minimally_leaving :
    let key := fnv1a64 (asBytes (routingKey "a" (Vector.replicate 16 0)))
    twoNodes.servingNode key = some 2 ∧
      ∃ entry, twoNodes.nextEntryWithout 2 key = some entry ∧
        (twoNodes.removeNode 2).2.servingNode key = some entry.nodeId :=
  ⟨by decide +kernel,
    ((keys_move_minimally (by decide) twoNodes_reachable (by decide +kernel)
      (fnv1a64 (asBytes (routingKey "a" (Vector.replicate 16 0)))) 2).2
      ⟨1, by decide +kernel, by decide⟩).2 (by decide +kernel)⟩

end FunDB.Cluster.ShardMap
