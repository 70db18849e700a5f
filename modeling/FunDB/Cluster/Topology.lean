import FunDB.Cluster.ShardMap

/-! # Topology changes

What adding or removing a node leaves on the ring and in the table of owners,
and which migrations it reports. -/

namespace FunDB.Cluster.ShardMap

open HashRing

/-! ## Assigning shards -/

section Assign

variable (newNode : Option NodeId)

theorem assignShard_owner (assigned : List ShardMigration × Std.ExtTreeMap ShardId NodeId)
    (entry : RingEntry) (shard : ShardId) :
    (assignShard newNode assigned entry).2[shard]? =
      if entry.shardId = shard then some entry.nodeId else assigned.2[shard]? := by
  rw [assignShard]
  cases owner : assigned.2[entry.shardId]? with
  | none => simp [Std.ExtTreeMap.getElem?_insert]
  | some oldOwner =>
      by_cases same : oldOwner = entry.nodeId
      · subst same
        by_cases here : entry.shardId = shard
        · subst here
          simp [owner]
        · simp [here]
      · simp [same, Std.ExtTreeMap.getElem?_insert]

theorem assignShard_migrations {assigned : List ShardMigration × Std.ExtTreeMap ShardId NodeId}
    {entry : RingEntry}
    (agrees : ∀ owner, assigned.2[entry.shardId]? = some owner → owner = entry.nodeId) :
    (assignShard newNode assigned entry).1 = assigned.1 := by
  rw [assignShard]
  cases owner : assigned.2[entry.shardId]? with
  | none => rfl
  | some oldOwner => simp [agrees oldOwner owner]

theorem assignShards_other {shard : ShardId} :
    ∀ {ring : List RingEntry} {assigned : List ShardMigration × Std.ExtTreeMap ShardId NodeId},
      (∀ entry ∈ ring, entry.shardId ≠ shard) →
        (ring.foldl (assignShard newNode) assigned).2[shard]? = assigned.2[shard]? := by
  intro ring
  induction ring with
  | nil => intro _ _; rfl
  | cons entry rest induction =>
      intro assigned absent
      rw [List.foldl_cons, induction fun other member =>
        absent other (List.mem_cons_of_mem _ member), assignShard_owner,
        if_neg (absent entry List.mem_cons_self)]

/-- With distinct shards, every entry's node owns its shard afterwards. -/
theorem assignShards_owned {entry : RingEntry} :
    ∀ {ring : List RingEntry} {assigned : List ShardMigration × Std.ExtTreeMap ShardId NodeId},
      (ring.map RingEntry.shardId).Nodup → entry ∈ ring →
        (ring.foldl (assignShard newNode) assigned).2[entry.shardId]? = some entry.nodeId := by
  intro ring
  induction ring with
  | nil => intro _ _ member; cases member
  | cons first rest induction =>
      intro assigned distinct member
      rw [List.map_cons, List.nodup_cons] at distinct
      rw [List.foldl_cons]
      rcases List.mem_cons.mp member with rfl | inRest
      · have absent : ∀ other ∈ rest, other.shardId ≠ entry.shardId := fun other isOther same =>
          distinct.1 (List.mem_map.mpr ⟨other, isOther, same⟩)
        rw [assignShards_other newNode absent, assignShard_owner, if_pos rfl]
      · exact induction distinct.2 inRest

theorem assignShards_migrations :
    ∀ {ring : List RingEntry} {assigned : List ShardMigration × Std.ExtTreeMap ShardId NodeId},
      (ring.map RingEntry.shardId).Nodup →
      (∀ entry ∈ ring, ∀ owner, assigned.2[entry.shardId]? = some owner →
        owner = entry.nodeId) →
        (ring.foldl (assignShard newNode) assigned).1 = assigned.1 := by
  intro ring
  induction ring with
  | nil => intro _ _ _; rfl
  | cons first rest induction =>
      intro assigned distinct agrees
      rw [List.map_cons, List.nodup_cons] at distinct
      have restAgrees : ∀ entry ∈ rest, ∀ owner,
          (assignShard newNode assigned first).2[entry.shardId]? = some owner →
            owner = entry.nodeId := by
        intro entry member owner owned
        have other : first.shardId ≠ entry.shardId := fun same =>
          distinct.1 (List.mem_map.mpr ⟨entry, member, same.symm⟩)
        rw [assignShard_owner, if_neg other] at owned
        exact agrees entry (List.mem_cons_of_mem _ member) owner owned
      rw [List.foldl_cons, induction distinct.2 restAgrees,
        assignShard_migrations newNode (agrees first List.mem_cons_self)]

end Assign

/-! ## Reassigning shards -/

section Reassign

variable {ring : List RingEntry} {node : NodeId}

/-- Without the removed node on the ring, every shard finds a new owner there. -/
theorem exists_newOwner (nonempty : ring ≠ []) (removed : ∀ entry ∈ ring, entry.nodeId ≠ node)
    (shard : ShardId) :
    ∃ entry ∈ ring, newOwner ring node shard = some entry.nodeId := by
  rcases List.exists_cons_of_ne_nil nonempty with ⟨first, rest, rfl⟩
  suffices exists_owner : ∃ entry ∈ first :: rest,
      (newOwner (first :: rest) node shard) = some entry.nodeId from exists_owner
  rw [newOwner]
  split
  · rename_i entryHash _
    have other := removed first List.mem_cons_self
    cases found : (first :: rest).find?
        fun entry => entry.hash ≥ entryHash ∧ entry.nodeId ≠ node with
    | none => exact ⟨first, List.mem_cons_self, by simp [other]⟩
    | some entry => exact ⟨entry, List.mem_of_find?_eq_some found, rfl⟩
  · dsimp only
    cases found : (first :: rest).find?
        fun entry => entry.hash ≥ fnv1a64 (toLeBytes shard) with
    | none => exact ⟨first, List.mem_cons_self, rfl⟩
    | some entry => exact ⟨entry, List.mem_of_find?_eq_some found, rfl⟩

/-- A shard that left the ring goes to the successor of the hash of its id. -/
theorem newOwner_of_absent {shard : ShardId} (absent : ∀ entry ∈ ring, entry.shardId ≠ shard) :
    newOwner ring node shard =
      (successor RingEntry.place ring (fnv1a64 (toLeBytes shard)).toNat).map
        RingEntry.nodeId := by
  have none : ring.find? (fun entry => entry.shardId = shard) = none := by
    rw [List.find?_eq_none]
    intro entry member
    simpa using absent entry member
  rw [newOwner, none, ← find?_or_head?]
  simp only [ge_iff_le, UInt64.le_iff_toNat_le, RingEntry.place, Option.map_none]
  rfl

theorem reassignShards_owner (nonempty : ring ≠ [])
    (removed : ∀ entry ∈ ring, entry.nodeId ≠ node) (shard : ShardId) :
    ∀ {shards : List ShardId} {assigned : List ShardMigration × Std.ExtTreeMap ShardId NodeId},
      (shards.foldl (reassignShard ring node) assigned).2[shard]? =
        if shard ∈ shards then newOwner ring node shard else assigned.2[shard]? := by
  intro shards
  induction shards with
  | nil => intro assigned; simp
  | cons first rest induction =>
      intro assigned
      rcases exists_newOwner nonempty removed first with ⟨entry, _, owner⟩
      rw [List.foldl_cons, induction, reassignShard, owner]
      by_cases inRest : shard ∈ rest
      · simp [inRest]
      · by_cases here : first = shard
        · subst here
          simp [inRest, owner]
        · simp [inRest, here, Ne.symm here, Std.ExtTreeMap.getElem?_insert]

theorem reassignShards_migrations (nonempty : ring ≠ [])
    (removed : ∀ entry ∈ ring, entry.nodeId ≠ node) (migration : ShardMigration) :
    ∀ {shards : List ShardId} {assigned : List ShardMigration × Std.ExtTreeMap ShardId NodeId},
      migration ∈ (shards.foldl (reassignShard ring node) assigned).1 ↔
        migration ∈ assigned.1 ∨
          migration.shardId ∈ shards ∧ migration.fromNode = node ∧
            newOwner ring node migration.shardId = some migration.toNode := by
  intro shards
  induction shards with
  | nil => intro assigned; simp
  | cons first rest induction =>
      intro assigned
      rcases exists_newOwner nonempty removed first with ⟨entry, _, owner⟩
      have isFirst : migration = ⟨first, node, entry.nodeId⟩ ↔
          migration.shardId = first ∧ migration.fromNode = node ∧
            newOwner ring node migration.shardId = some migration.toNode := by
        constructor
        · intro same
          subst same
          exact ⟨rfl, rfl, owner⟩
        · intro fields
          rcases fields with ⟨sameShard, sameNode, sameOwner⟩
          rw [sameShard, owner] at sameOwner
          cases migration
          cases sameShard
          cases sameNode
          cases sameOwner
          rfl
      rw [List.foldl_cons, induction, reassignShard, owner]
      rw [List.mem_append, List.mem_singleton, isFirst, List.mem_cons, or_and_right, or_assoc]

end Reassign

/-! ## What a topology change does -/

def virtualEntries (map : ShardMap) (node : NodeId) : List RingEntry :=
  (List.range map.virtualNodes).map fun replica =>
    ⟨virtualNodeHash node replica, node, map.nextShardId + replica⟩

def remaining (map : ShardMap) (node : NodeId) : List RingEntry :=
  map.ring.filter fun entry => entry.nodeId ≠ node

theorem pushReplicas_eq {map after : ShardMap} {node : NodeId} :
    ∀ {count : Nat},
      (List.range count).foldlM (fun map replica => map.pushReplica node replica) map =
        some after →
      after = { map with
        ring := map.ring ++ (List.range count).map fun replica =>
          ⟨virtualNodeHash node replica, node, map.nextShardId + replica⟩
        nextShardId := map.nextShardId + count } := by
  intro count
  induction count generalizing after with
  | zero =>
      intro pushed
      cases pushed
      simp
  | succ count induction =>
      intro pushed
      rw [List.range_succ, List.foldlM_append, Option.bind_eq_bind,
        Option.bind_eq_some_iff] at pushed
      rcases pushed with ⟨before, earlier, last⟩
      have last : before.pushReplica node count = some after := by simpa using last
      rw [pushReplica] at last
      split at last
      · cases last
        rw [induction earlier]
        simp [List.range_succ, Nat.add_assoc]
      · cases last

theorem addNode_cases {sorting : PositionSort RingEntry.place} {map after : ShardMap}
    {node : NodeId} {addr : SocketAddr} {migrations : List ShardMigration}
    (added : map.addNode sorting node addr = some (migrations, after)) :
    (node ∈ map.nodeAddrs ∧ migrations = [] ∧ after = map) ∨
    (node ∉ map.nodeAddrs ∧
      ∃ ring assigned, ring.Perm (map.ring ++ map.virtualEntries node) ∧
        Sorted RingEntry.place ring ∧
        assigned = ring.foldl (assignShard (some node)) ([], map.shardOwners) ∧
        migrations = assigned.1 ∧
        after = { map with
          ring := ring
          nodeAddrs := map.nodeAddrs.insert node addr
          shardOwners := assigned.2
          nextShardId := map.nextShardId + map.virtualNodes }) := by
  rw [addNode] at added
  split at added
  · rename_i known
    cases added
    exact .inl ⟨known, rfl, rfl⟩
  · rename_i unknown
    simp only [Option.bind_eq_bind, Option.bind_eq_some_iff] at added
    rcases added with ⟨pushed, replicas, result⟩
    rw [pushReplicas_eq replicas] at result
    cases result
    exact .inr ⟨unknown, _, _, sorting.perm _, sorting.sorted _, rfl, rfl, rfl⟩

theorem removeNode_cases (map : ShardMap) (node : NodeId) :
    (node ∉ map.nodeAddrs ∧ map.removeNode node = ([], map)) ∨
    (node ∈ map.nodeAddrs ∧ map.remaining node = [] ∧
      (map.removeNode node).2 = { map with
        ring := []
        nodeAddrs := map.nodeAddrs.erase node
        shardOwners := ∅ }) ∨
    (node ∈ map.nodeAddrs ∧ map.remaining node ≠ [] ∧
      ∃ assigned, assigned = (map.ownedShards node).foldl
          (reassignShard (map.remaining node) node) ([], map.shardOwners) ∧
        map.removeNode node = (assigned.1, { map with
          ring := map.remaining node
          nodeAddrs := map.nodeAddrs.erase node
          shardOwners := assigned.2 })) := by
  by_cases known : node ∈ map.nodeAddrs
  · right
    by_cases empty : map.remaining node = []
    · left
      refine ⟨known, empty, ?_⟩
      rw [remaining] at empty
      rw [removeNode, if_neg (not_not.mpr known)]
      simp only [empty]
      rfl
    · right
      refine ⟨known, empty, _, rfl, ?_⟩
      have nonempty : (map.remaining node).isEmpty = false := List.isEmpty_eq_false_iff.mpr empty
      rw [remaining] at nonempty
      rw [removeNode, if_neg (not_not.mpr known)]
      simp only [nonempty]
      rfl
  · left
    exact ⟨known, by rw [removeNode, if_pos known]⟩

theorem mem_ownedShards {map : ShardMap} {node : NodeId} {shard : ShardId} :
    shard ∈ map.ownedShards node ↔ map.shardOwners[shard]? = some node := by
  simp [ownedShards, Std.ExtTreeMap.mem_toList_iff_getElem?_eq_some]

theorem mem_nodeAddrs_erase {map : ShardMap} {node other : NodeId} :
    other ∈ map.nodeAddrs.erase node ↔ other ∈ map.nodeAddrs ∧ other ≠ node := by
  rw [Std.ExtTreeMap.mem_erase, ne_eq, Std.LawfulEqCmp.compare_eq_iff_eq, and_comm, ne_comm]

theorem mem_remaining {map : ShardMap} {node : NodeId} {entry : RingEntry} :
    entry ∈ map.remaining node ↔ entry ∈ map.ring ∧ entry.nodeId ≠ node := by
  simp [remaining]

end FunDB.Cluster.ShardMap
