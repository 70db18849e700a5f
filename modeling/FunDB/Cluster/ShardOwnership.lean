import FunDB.Cluster.Topology

/-! # Ring and owners

The ring and the table of owners tell the same: every ring entry's shard is
owned by the entry's node, and every owner is a registered node. -/

namespace FunDB.Cluster.ShardMap

open HashRing

/-! ## The invariant -/

/-- The ring is sorted, its shards are distinct, and ring, owners and addresses
agree. -/
structure Consistent (map : ShardMap) : Prop where
  sorted : Sorted RingEntry.place map.ring
  distinctShards : (map.ring.map RingEntry.shardId).Nodup
  allocated : ∀ entry ∈ map.ring, entry.shardId < map.nextShardId
  owned : ∀ entry ∈ map.ring, map.shardOwners[entry.shardId]? = some entry.nodeId
  ownersAllocated : ∀ (shard : ShardId) (node : NodeId), map.shardOwners[shard]? = some node →
    shard < map.nextShardId
  ownersRegistered : ∀ (shard : ShardId) (node : NodeId), map.shardOwners[shard]? = some node →
    node ∈ map.nodeAddrs
  onRing : 1 ≤ map.virtualNodes → ∀ node ∈ map.nodeAddrs,
    ∃ entry ∈ map.ring, entry.nodeId = node

namespace Consistent

variable {map : ShardMap}

theorem new (virtualNodes : Nat) : (ShardMap.new virtualNodes).Consistent where
  sorted := List.Pairwise.nil
  distinctShards := List.nodup_nil
  allocated _ member := by cases member
  owned _ member := by cases member
  ownersAllocated _ _ owned := by simp [ShardMap.new] at owned
  ownersRegistered _ _ owned := by simp [ShardMap.new] at owned
  onRing _ _ member := by simp [ShardMap.new] at member

theorem registered (consistent : map.Consistent) {entry : RingEntry}
    (member : entry ∈ map.ring) : entry.nodeId ∈ map.nodeAddrs :=
  consistent.ownersRegistered _ _ (consistent.owned entry member)

theorem nodeId_ne (consistent : map.Consistent) {node : NodeId}
    (unknown : node ∉ map.nodeAddrs) {entry : RingEntry} (member : entry ∈ map.ring) :
    entry.nodeId ≠ node := by
  intro same
  apply unknown
  rw [← same]
  exact consistent.registered member

/-- Another node keeps its entries when a node leaves the ring. -/
theorem exists_remaining (consistent : map.Consistent) (positive : 1 ≤ map.virtualNodes)
    {node other : NodeId} (present : other ∈ map.nodeAddrs) (different : other ≠ node) :
    ∃ entry ∈ map.remaining node, entry.nodeId = other := by
  rcases consistent.onRing positive other present with ⟨entry, member, same⟩
  exact ⟨entry, mem_remaining.mpr ⟨member, by rwa [same]⟩, same⟩

theorem distinct_added (consistent : map.Consistent) (node : NodeId) {ring : List RingEntry}
    (perm : ring.Perm (map.ring ++ map.virtualEntries node)) :
    (ring.map RingEntry.shardId).Nodup := by
  have shards : (map.virtualEntries node).map RingEntry.shardId =
      (List.range map.virtualNodes).map fun replica => map.nextShardId + replica := by
    rw [virtualEntries, List.map_map]
    rfl
  rw [(perm.map RingEntry.shardId).nodup_iff, List.map_append, shards, List.nodup_append]
  refine ⟨consistent.distinctShards, ?_, ?_⟩
  · exact List.nodup_range.map fun _ _ => Nat.add_left_cancel
  · intro old isOld new isNew equal
    subst equal
    rcases List.mem_map.mp isOld with ⟨entry, member, rfl⟩
    rcases List.mem_map.mp isNew with ⟨replica, _, same⟩
    have below := consistent.allocated entry member
    rw [← same] at below
    exact absurd below (Nat.not_lt.mpr (Nat.le_add_right _ _))

theorem addNode (consistent : map.Consistent) {after : ShardMap}
    {sorting : PositionSort RingEntry.place} {node : NodeId} {addr : SocketAddr}
    {migrations : List ShardMigration}
    (added : map.addNode sorting node addr = some (migrations, after)) :
    after.Consistent := by
  rcases addNode_cases added with
    ⟨_, _, rfl⟩ | ⟨unknown, ring, assigned, perm, sorted, rfl, _, rfl⟩
  · exact consistent
  · have distinct := consistent.distinct_added node perm
    have place {entry : RingEntry} (member : entry ∈ ring) :
        entry ∈ map.ring ∨ entry ∈ map.virtualEntries node :=
      List.mem_append.mp (perm.mem_iff.mp member)
    have ownedBy {shard : ShardId} {owner : NodeId}
        (owned : (ring.foldl (assignShard (some node)) ([], map.shardOwners)).2[shard]? =
          some owner) :
        (∃ entry ∈ ring, entry.shardId = shard ∧ entry.nodeId = owner) ∨
          map.shardOwners[shard]? = some owner := by
      by_cases onRing : ∃ entry ∈ ring, entry.shardId = shard
      · rcases onRing with ⟨entry, member, rfl⟩
        rw [assignShards_owned (some node) distinct member] at owned
        exact .inl ⟨entry, member, rfl, Option.some.inj owned⟩
      · rw [assignShards_other (some node) fun entry member same =>
          onRing ⟨entry, member, same⟩] at owned
        exact .inr owned
    have allocated : ∀ entry ∈ ring,
        entry.shardId < map.nextShardId + map.virtualNodes := by
      intro entry member
      rcases place member with isOld | isNew
      · exact Nat.lt_add_right _ (consistent.allocated entry isOld)
      · rcases List.mem_map.mp isNew with ⟨replica, within, rfl⟩
        exact Nat.add_lt_add_left (List.mem_range.mp within) _
    exact
      { sorted := sorted
        distinctShards := distinct
        allocated := allocated
        owned := fun entry member => assignShards_owned (some node) distinct member
        ownersAllocated := fun shard owner owned => by
          rcases ownedBy owned with ⟨entry, member, rfl, _⟩ | before
          · exact allocated entry member
          · exact Nat.lt_add_right _ (consistent.ownersAllocated shard owner before)
        ownersRegistered := fun shard owner owned => by
          rw [Std.ExtTreeMap.mem_insert]
          rcases ownedBy owned with ⟨entry, member, rfl, rfl⟩ | before
          · rcases place member with isOld | isNew
            · exact .inr (consistent.registered isOld)
            · rcases List.mem_map.mp isNew with ⟨replica, _, rfl⟩
              exact .inl Std.ReflCmp.compare_self
          · exact .inr (consistent.ownersRegistered shard owner before)
        onRing := fun positive other registered => by
          rw [Std.ExtTreeMap.mem_insert, Std.LawfulEqCmp.compare_eq_iff_eq] at registered
          rcases registered with rfl | before
          · refine ⟨⟨virtualNodeHash node 0, node, map.nextShardId + 0⟩, ?_, rfl⟩
            refine perm.mem_iff.mpr (List.mem_append_right _ ?_)
            exact List.mem_map.mpr ⟨0, List.mem_range.mpr positive, rfl⟩
          · rcases consistent.onRing positive other before with ⟨entry, member, same⟩
            exact ⟨entry, perm.mem_iff.mpr (List.mem_append_left _ member), same⟩ }

theorem removeNode (consistent : map.Consistent) (node : NodeId) :
    (map.removeNode node).2.Consistent := by
  rcases removeNode_cases map node with
    ⟨_, result⟩ | ⟨_, empty, result⟩ | ⟨_, nonempty, _, rfl, result⟩
  · rw [result]
    exact consistent
  · rw [result]
    exact
      { sorted := List.Pairwise.nil
        distinctShards := List.nodup_nil
        allocated := fun _ member => by cases member
        owned := fun _ member => by cases member
        ownersAllocated := fun _ _ owned => by simp at owned
        ownersRegistered := fun _ _ owned => by simp at owned
        onRing := fun positive other registered => by
          rcases mem_nodeAddrs_erase.mp registered with ⟨present, different⟩
          rcases consistent.exists_remaining positive present different with
            ⟨entry, member, _⟩
          rw [empty] at member
          cases member }
  · rw [result]
    have removed : ∀ entry ∈ map.remaining node, entry.nodeId ≠ node :=
      fun entry member => (mem_remaining.mp member).2
    exact
      { sorted := consistent.sorted.filter _
        distinctShards := consistent.distinctShards.sublist
          (List.Sublist.map _ List.filter_sublist)
        allocated := fun entry member => consistent.allocated entry (mem_remaining.mp member).1
        owned := fun entry member => by
          rcases mem_remaining.mp member with ⟨inRing, other⟩
          have owner := consistent.owned entry inRing
          have notOwned : entry.shardId ∉ map.ownedShards node := by
            rw [mem_ownedShards, owner]
            exact fun same => other (Option.some.inj same)
          rw [reassignShards_owner nonempty removed, if_neg notOwned]
          exact owner
        ownersAllocated := fun shard owner owned => by
          rw [reassignShards_owner nonempty removed] at owned
          split at owned
          · rename_i wasOwned
            exact consistent.ownersAllocated shard node (mem_ownedShards.mp wasOwned)
          · exact consistent.ownersAllocated shard owner owned
        ownersRegistered := fun shard owner owned => by
          rw [reassignShards_owner nonempty removed] at owned
          split at owned
          · rcases exists_newOwner nonempty removed shard with ⟨entry, member, found⟩
            rw [found] at owned
            cases owned
            rcases mem_remaining.mp member with ⟨inRing, other⟩
            exact mem_nodeAddrs_erase.mpr ⟨consistent.registered inRing, other⟩
          · rename_i notOwned
            refine mem_nodeAddrs_erase.mpr
              ⟨consistent.ownersRegistered shard owner owned, fun same => ?_⟩
            exact notOwned (mem_ownedShards.mpr (same ▸ owned))
        onRing := fun positive other registered => by
          rcases mem_nodeAddrs_erase.mp registered with ⟨present, different⟩
          exact consistent.exists_remaining positive present different }

theorem shardFor (consistent : map.Consistent) (collection : String) (recordId : Uuid) :
    (map.shardFor collection recordId).2.Consistent := by
  rw [ShardMap.shardFor]
  split
  · exact consistent
  · exact { consistent with }

end Consistent

theorem Reachable.consistent {virtualNodes : Nat} {map : ShardMap}
    (reachable : Reachable virtualNodes map) : map.Consistent := by
  induction reachable with
  | new => exact Consistent.new virtualNodes
  | addNode _ _ _ _ added induction => exact induction.addNode added
  | removeNode node _ induction => exact induction.removeNode node
  | shardFor collection recordId _ induction => exact induction.shardFor collection recordId

theorem Reachable.virtualNodes_eq {virtualNodes : Nat} {map : ShardMap}
    (reachable : Reachable virtualNodes map) : map.virtualNodes = virtualNodes := by
  induction reachable with
  | new => rfl
  | addNode _ _ _ _ added induction =>
      rcases addNode_cases added with ⟨_, _, rfl⟩ | ⟨_, _, _, _, _, _, _, rfl⟩
      · exact induction
      · exact induction
  | @removeNode map node _ induction =>
      rcases removeNode_cases map node with
        ⟨_, result⟩ | ⟨_, _, result⟩ | ⟨_, _, _, _, result⟩ <;> rw [result]
      · exact induction
      · exact induction
      · exact induction
  | shardFor collection recordId _ induction =>
      rw [ShardMap.shardFor]
      split
      · exact induction
      · exact induction

/-! ## Leaders of routed records -/

/-- The shard of a key is that of the key's successor on the ring. -/
theorem successorShard_eq (map : ShardMap) (keyHash : UInt64) :
    map.successorShard keyHash =
      (successor RingEntry.place map.ring keyHash.toNat).map RingEntry.shardId := by
  have reached (entry : RingEntry) : (!decide (entry.hash < keyHash)) =
      decide (keyHash.toNat ≤ entry.place) := by
    rw [RingEntry.place, ← decide_not, decide_eq_decide, UInt64.lt_iff_toNat_lt, Nat.not_lt]
  simp only [successorShard, reached, getElem?_findIdx]

theorem Consistent.exists_leaderAddr {map : ShardMap} (consistent : map.Consistent)
    (nonempty : map.ring ≠ []) (collection : String) (recordId : Uuid) :
    ∃ addr, (map.shardFor collection recordId).2.leaderAddr
      (map.shardFor collection recordId).1 = some addr := by
  let hash := fnv1a64 (asBytes (routingKey collection recordId))
  rcases exists_successor RingEntry.place nonempty hash.toNat with ⟨entry, found⟩
  have member := mem_of_successor found
  have owner := consistent.owned entry member
  have registered := consistent.ownersRegistered _ _ owner
  have shard : map.successorShard hash = some entry.shardId := by
    rw [successorShard_eq, found]
    rfl
  rw [ShardMap.shardFor, if_neg (by simpa using nonempty)]
  simp only [leaderAddr, show fnv1a64 (asBytes (routingKey collection recordId)) = hash from rfl,
    shard, Option.getD_some, owner, Option.bind_eq_bind, Option.bind_some]
  exact Option.isSome_iff_exists.mp
    (Std.ExtTreeMap.mem_iff_isSome_getElem?.mp registered)

/-- In every reachable map the ring is sorted, its shards are distinct and owned
by the nodes of their entries, and owners are registered; so while a node is
present every routed record has a leader address. -/
theorem ring_owner_invariant {virtualNodes : Nat} (positive : 1 ≤ virtualNodes)
    {map : ShardMap} (reachable : Reachable virtualNodes map) :
    Sorted RingEntry.place map.ring ∧
      (map.ring.map RingEntry.shardId).Nodup ∧
      (∀ entry ∈ map.ring, map.shardOwners[entry.shardId]? = some entry.nodeId) ∧
      (∀ (shard : ShardId) (node : NodeId), map.shardOwners[shard]? = some node →
        node ∈ map.nodeAddrs) ∧
      ((∃ node, node ∈ map.nodeAddrs) → ∀ collection recordId,
        ∃ addr, (map.shardFor collection recordId).2.leaderAddr
          (map.shardFor collection recordId).1 = some addr) := by
  have consistent := reachable.consistent
  refine ⟨consistent.sorted, consistent.distinctShards, consistent.owned,
    consistent.ownersRegistered, ?_⟩
  intro peopled collection recordId
  rcases peopled with ⟨node, present⟩
  have served : 1 ≤ map.virtualNodes := by rwa [reachable.virtualNodes_eq]
  rcases consistent.onRing served node present with ⟨entry, member, _⟩
  exact consistent.exists_leaderAddr (List.ne_nil_of_mem member) collection recordId

/-- The map with one more node, in the order of the stable sort. -/
def withNode (map : ShardMap) (node : NodeId) (addr : SocketAddr) : ShardMap :=
  ((map.addNode (stableSort RingEntry.place) node addr).map Prod.snd).getD map

theorem Reachable.withNode {virtualNodes : Nat} {map : ShardMap}
    (reachable : Reachable virtualNodes map) (node : NodeId) (addr : SocketAddr) :
    Reachable virtualNodes (map.withNode node addr) := by
  rw [ShardMap.withNode]
  cases added : map.addNode (stableSort RingEntry.place) node addr with
  | none => exact reachable
  | some result => exact .addNode _ node addr reachable added

/-- A cluster of two nodes with one virtual node each. -/
def twoNodes : ShardMap :=
  ((ShardMap.new 1).withNode 1 "127.0.0.1:9001").withNode 2 "127.0.0.1:9002"

theorem twoNodes_reachable : Reachable 1 twoNodes :=
  (Reachable.new.withNode 1 "127.0.0.1:9001").withNode 2 "127.0.0.1:9002"

theorem ring_owner_invariant_rejoined :
    let rejoined := (twoNodes.removeNode 1).2.withNode 1 "127.0.0.1:9003"
    let placed := rejoined.shardFor "col" (Vector.replicate 16 0)
    placed.1 = 2 ∧ ∃ addr, placed.2.leaderAddr placed.1 = some addr :=
  ⟨by decide +kernel,
    (ring_owner_invariant (by decide)
      ((twoNodes_reachable.removeNode 1).withNode 1 "127.0.0.1:9003")).2.2.2.2
      ⟨1, by decide +kernel⟩ "col" (Vector.replicate 16 0)⟩

end FunDB.Cluster.ShardMap
