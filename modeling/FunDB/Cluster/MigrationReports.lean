import FunDB.Cluster.KeyMoves

/-! # Reported migrations

An added node reports nothing, and a removed node reports for each shard the
successor of the hash of the shard's id, not of the shard's ring entry. -/

namespace FunDB.Cluster.ShardMap

open HashRing

inductive TopologyChange where
  | addNode (node : NodeId) (addr : SocketAddr)
  | removeNode (node : NodeId)
deriving DecidableEq, Repr

def change (sorting : PositionSort RingEntry.place) (map : ShardMap) :
    TopologyChange → Option (List ShardMigration × ShardMap)
  | .addNode node addr => map.addNode sorting node addr
  | .removeNode node => some (map.removeNode node)

/-- If the key moves from one node to another, the migrations tell so for the
shard that the key was in. -/
def ReportsMove (map after : ShardMap) (migrations : List ShardMigration)
    (keyHash : UInt64) : Prop :=
  ∀ shard fromNode toNode, map.successorShard keyHash = some shard →
    map.servingNode keyHash = some fromNode → after.servingNode keyHash = some toNode →
      fromNode ≠ toNode → ⟨shard, fromNode, toNode⟩ ∈ migrations

/-- The key is one whose move the change can report. For an added node: no
virtual node of it comes between the key and its ring entry. For a removed node:
it does not serve the key, or the next entry of another node belongs to the same
node as the successor of the hash of the shard's id among the other entries. -/
def MoveForeseen (map : ShardMap) (keyHash : UInt64) : TopologyChange → Prop
  | .addNode node _ =>
      node ∈ map.nodeAddrs ∨
        ∀ entry, map.servingEntry keyHash = some entry →
          ∀ replica < map.virtualNodes,
            ¬ distance keyHash.toNat (virtualNodeHash node replica).toNat <
              distance keyHash.toNat entry.place
  | .removeNode node =>
      ∀ entry, map.servingEntry keyHash = some entry → entry.nodeId = node →
        (map.nextEntryWithout node keyHash).map RingEntry.nodeId =
          (successor RingEntry.place (map.remaining node)
            (fnv1a64 (toLeBytes entry.shardId)).toNat).map RingEntry.nodeId

namespace Consistent

variable {map : ShardMap}

theorem successorShard_of_none {keyHash : UInt64} (nowhere : map.servingEntry keyHash = none) :
    map.successorShard keyHash = none := by
  rw [servingEntry] at nowhere
  rw [successorShard_eq, nowhere, Option.map_none]

theorem servingNode_of_entry (consistent : map.Consistent) {keyHash : UInt64}
    {entry : RingEntry} (found : map.servingEntry keyHash = some entry) :
    map.servingNode keyHash = some entry.nodeId := by
  rw [consistent.servingNode_eq, found, Option.map_some]

theorem successorShard_of_entry {keyHash : UInt64} {entry : RingEntry}
    (found : map.servingEntry keyHash = some entry) :
    map.successorShard keyHash = some entry.shardId := by
  rw [servingEntry] at found
  rw [successorShard_eq, found, Option.map_some]

/-! ## An added node -/

section Add

variable {after : ShardMap} {sorting : PositionSort RingEntry.place} {node : NodeId}
variable {addr : SocketAddr} {migrations : List ShardMigration}

theorem distinct_of_added (unknown : node ∉ map.nodeAddrs)
    (added : map.addNode sorting node addr = some (migrations, after))
    (distinct : Distinct RingEntry.place after.ring) : Distinct RingEntry.place map.ring := by
  rcases addNode_cases added with ⟨known, _⟩ | ⟨_, ring, _, perm, _, _, _, rfl⟩
  · exact absurd known unknown
  · have together := (perm.map RingEntry.place).nodup_iff.mp distinct
    rw [List.map_append] at together
    exact (List.nodup_append.mp together).1

/-- A key moves to the added node exactly when a virtual node of it comes before
the key's ring entry. -/
theorem servedByAdded_iff (consistent : map.Consistent) (unknown : node ∉ map.nodeAddrs)
    (added : map.addNode sorting node addr = some (migrations, after))
    (distinct : Distinct RingEntry.place after.ring) {keyHash : UInt64}
    {entry found : RingEntry} (before : map.servingEntry keyHash = some entry)
    (later : after.servingEntry keyHash = some found) :
    found.nodeId = node ↔
      ∃ replica < map.virtualNodes,
        distance keyHash.toNat (virtualNodeHash node replica).toNat <
          distance keyHash.toNat entry.place := by
  have sameOthers := consistent.remaining_of_added
    (distinct_of_added unknown added distinct) unknown added
  rw [servingEntry, ← sameOthers, remaining] at before
  have moves_iff := (consistent.addNode added).sorted.successor_added_iff
    (fun other => decide (other.nodeId ≠ node)) distinct before later
  simp only [decide_eq_false_iff_not, not_not] at moves_iff
  rw [moves_iff]
  constructor
  · intro someNearer
    rcases someNearer with ⟨other, member, ofNode, nearer⟩
    have isNew := (consistent.mem_ring_of_added unknown added other).mp ⟨member, ofNode⟩
    rcases List.mem_map.mp isNew with ⟨replica, within, rfl⟩
    exact ⟨replica, List.mem_range.mp within, nearer⟩
  · intro someNearer
    rcases someNearer with ⟨replica, within, nearer⟩
    have isNew := (consistent.mem_ring_of_added unknown added _).mpr
      (List.mem_map.mpr ⟨replica, List.mem_range.mpr within, rfl⟩)
    exact ⟨_, isNew.1, isNew.2, nearer⟩

theorem reportsMove_of_added (consistent : map.Consistent)
    (added : map.addNode sorting node addr = some (migrations, after))
    (distinct : Distinct RingEntry.place after.ring) (keyHash : UInt64) :
    ReportsMove map after migrations keyHash ↔
      map.MoveForeseen keyHash (.addNode node addr) := by
  have afterConsistent := consistent.addNode added
  have silent := consistent.migrations_of_added added
  rw [ReportsMove, silent, MoveForeseen]
  by_cases known : node ∈ map.nodeAddrs
  · refine iff_of_true ?_ (.inl known)
    rcases addNode_cases added with ⟨_, _, rfl⟩ | ⟨unknown, _⟩
    · intro shard fromNode toNode _ before later moves
      rw [before] at later
      exact absurd (Option.some.inj later) moves
    · exact absurd known unknown
  · rw [or_iff_right known]
    cases before : map.servingEntry keyHash with
    | none =>
        rw [successorShard_of_none before]
        exact iff_of_true (fun _ _ _ absent => by cases absent) (fun _ absent => by cases absent)
    | some entry =>
        have sameOthers := consistent.remaining_of_added
          (distinct_of_added known added distinct) known added
        have inRing : entry ∈ map.ring := mem_of_successor before
        have otherBefore := consistent.nodeId_ne known inRing
        have afterNonempty : after.ring ≠ [] := by
          rw [← sameOthers] at inRing
          exact List.ne_nil_of_mem (mem_remaining.mp inRing).1
        rcases exists_successor RingEntry.place afterNonempty keyHash.toNat with
          ⟨found, later⟩
        have moves_iff := consistent.servedByAdded_iff known added distinct before later
        rw [successorShard_of_entry before, consistent.servingNode_of_entry before,
          afterConsistent.servingNode_of_entry later]
        constructor
        · intro reports _ same replica within nearer
          cases same
          have ofNode := moves_iff.mpr ⟨replica, within, nearer⟩
          have reported := reports entry.shardId entry.nodeId found.nodeId rfl rfl rfl
            (by rwa [ofNode])
          cases reported
        · intro none shard fromNode toNode _ isFrom isTo moves
          have ofOther : found.nodeId ≠ node := by
            intro ofNode
            rcases moves_iff.mp ofNode with ⟨replica, within, nearer⟩
            exact none entry rfl replica within nearer
          have unchanged := successor_filter_of_kept
            (fun other => decide (other.nodeId ≠ node)) later (by simpa using ofOther)
          rw [servingEntry, ← sameOthers, remaining, unchanged] at before
          cases before
          exact absurd ((Option.some.inj isFrom).symm.trans (Option.some.inj isTo)) moves

end Add

/-! ## A removed node -/

/-- Each shard of the removed node is reported once, with the owner that the
hash of its id gives. -/
theorem mem_migrations_of_removed (consistent : map.Consistent) {node : NodeId}
    (nonempty : map.remaining node ≠ []) {entry : RingEntry} (member : entry ∈ map.ring)
    (ofNode : entry.nodeId = node) (toNode : NodeId) :
    ⟨entry.shardId, node, toNode⟩ ∈ (map.removeNode node).1 ↔
      (successor RingEntry.place (map.remaining node)
        (fnv1a64 (toLeBytes entry.shardId)).toNat).map RingEntry.nodeId = some toNode := by
  have removed : ∀ other ∈ map.remaining node, other.nodeId ≠ node :=
    fun other isRemaining => (mem_remaining.mp isRemaining).2
  have gone : ∀ other ∈ map.remaining node, other.shardId ≠ entry.shardId := by
    intro other isRemaining same
    rcases mem_remaining.mp isRemaining with ⟨inRing, different⟩
    have equal := List.inj_on_of_nodup_map consistent.distinctShards inRing member same
    exact different (by rw [equal, ofNode])
  have isOwned : entry.shardId ∈ map.ownedShards node := by
    rw [mem_ownedShards, consistent.owned entry member, ofNode]
  rcases removeNode_cases map node with
    ⟨unknown, _⟩ | ⟨_, empty, _⟩ | ⟨_, _, _, rfl, result⟩
  · exact absurd (ofNode ▸ consistent.registered member) unknown
  · exact absurd empty nonempty
  · rw [result, reassignShards_migrations nonempty removed, newOwner_of_absent gone]
    simp [isOwned]

theorem reportsMove_of_removed (consistent : map.Consistent) {node : NodeId}
    (nonempty : map.remaining node ≠ []) (keyHash : UInt64) :
    ReportsMove map (map.removeNode node).2 (map.removeNode node).1 keyHash ↔
      map.MoveForeseen keyHash (.removeNode node) := by
  have afterConsistent := consistent.removeNode node
  rcases exists_successor RingEntry.place nonempty keyHash.toNat with
    ⟨next, found⟩
  rw [remaining, successor_filter] at found
  have isNext : map.nextEntryWithout node keyHash = some next := found
  have otherNext : next.nodeId ≠ node := by simpa using List.find?_some found
  have later := (consistent.servingEntry_removeNode node keyHash).trans isNext
  rw [ReportsMove, MoveForeseen, afterConsistent.servingNode_of_entry later, isNext,
    Option.map_some]
  cases before : map.servingEntry keyHash with
  | none =>
      rw [successorShard_of_none before]
      exact iff_of_true (fun _ _ _ absent => by cases absent) (fun _ absent => by cases absent)
  | some entry =>
      have member : entry ∈ map.ring := mem_of_successor before
      rw [successorShard_of_entry before, consistent.servingNode_of_entry before]
      constructor
      · intro reports _ same ofNode
        cases same
        have reported := reports entry.shardId entry.nodeId next.nodeId rfl rfl rfl
          (by rw [ofNode]; exact otherNext.symm)
        rw [ofNode, consistent.mem_migrations_of_removed nonempty member ofNode] at reported
        exact reported.symm
      · intro foreseen shard fromNode toNode inShard isFrom isTo moves
        cases inShard
        cases isFrom
        cases isTo
        by_cases ofNode : entry.nodeId = node
        · rw [ofNode, consistent.mem_migrations_of_removed nonempty member ofNode]
          exact (foreseen entry rfl ofNode).symm
        · -- The entry stays, so the key does not move.
          have kept : map.nextEntryWithout node keyHash = some entry := by
            rw [nextEntryWithout, ← successor_filter]
            exact successor_filter_of_kept _ before (by simpa using ofNode)
          rw [isNext] at kept
          cases kept
          exact absurd rfl moves

end Consistent

/-- A topology change that leaves a node reports the move of a key exactly when
the move is foreseen. -/
theorem reports_move_iff {virtualNodes : Nat} (positive : 1 ≤ virtualNodes)
    {map after : ShardMap} (reachable : Reachable virtualNodes map)
    (sorting : PositionSort RingEntry.place) (topologyChange : TopologyChange)
    {migrations : List ShardMigration}
    (changed : map.change sorting topologyChange = some (migrations, after))
    (distinct : Distinct RingEntry.place after.ring) (left : ∃ node, node ∈ after.nodeAddrs)
    (keyHash : UInt64) :
    ReportsMove map after migrations keyHash ↔ map.MoveForeseen keyHash topologyChange := by
  have consistent := reachable.consistent
  cases topologyChange with
  | addNode node addr => exact consistent.reportsMove_of_added changed distinct keyHash
  | removeNode node =>
      have result : map.removeNode node = (migrations, after) := Option.some.inj changed
      obtain rfl : (map.removeNode node).1 = migrations := by rw [result]
      obtain rfl : (map.removeNode node).2 = after := by rw [result]
      rcases left with ⟨other, present⟩
      have served : 1 ≤ (map.removeNode node).2.virtualNodes := by
        rwa [(reachable.removeNode node).virtualNodes_eq]
      rcases (consistent.removeNode node).onRing served other present with ⟨entry, member, _⟩
      rw [consistent.removeNode_ring] at member
      exact consistent.reportsMove_of_removed (List.ne_nil_of_mem member) keyHash

/-- The key of a record of the collection `a`. -/
def movedKey : UInt64 := fnv1a64 (asBytes (routingKey "a" (Vector.replicate 16 0)))

theorem reports_move_iff_leaving :
    ReportsMove twoNodes (twoNodes.removeNode 1).2 (twoNodes.removeNode 1).1 movedKey ↔
      twoNodes.MoveForeseen movedKey (.removeNode 1) :=
  reports_move_iff (by decide) twoNodes_reachable (stableSort _) (.removeNode 1) rfl
    (by decide +kernel) ⟨2, by decide +kernel⟩ movedKey

/-- The key is served by node 1 until node 2 joins with a virtual node between
the key and its ring entry; nothing is reported. -/
theorem join_moves_key_silently :
    let map := (ShardMap.new 1).withNode 1 "127.0.0.1:9001"
    ((map.addNode (stableSort _) 2 "127.0.0.1:9002").map Prod.fst = some []) ∧
      Distinct RingEntry.place (map.withNode 2 "127.0.0.1:9002").ring ∧
      map.servingNode movedKey = some 1 ∧
      (map.withNode 2 "127.0.0.1:9002").servingNode movedKey = some 2 ∧
      ¬ ReportsMove map (map.withNode 2 "127.0.0.1:9002") [] movedKey := by
  refine ⟨by decide +kernel, by decide +kernel, by decide +kernel, by decide +kernel, ?_⟩
  intro reports
  have reported := reports 0 1 2 (by decide +kernel) (by decide +kernel) (by decide +kernel)
    (by decide)
  cases reported

end FunDB.Cluster.ShardMap
