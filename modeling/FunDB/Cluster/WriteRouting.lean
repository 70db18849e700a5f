import FunDB.Cluster.DistQuery
import FunDB.Cluster.ShardOwnership
import FunDB.Foundation.OrderStatistic

/-! # Placement and lookup

Records are placed by the ring and looked up by their rank among the used
shards. The two agree where the rank of the placing shard is the one that the
hash of the write gives. -/

namespace FunDB.Cluster

open OrderStatistic

namespace ShardMap

def routed (map : ShardMap) (records : List (String × Uuid)) : ShardMap :=
  records.foldl (fun map record => (map.shardFor record.1 record.2).2) map

/-! ## Used shards -/

theorem mem_shardsForCollection {map : ShardMap} {collection : String} {shard : ShardId} :
    shard ∈ map.shardsForCollection collection ↔
      shard ∈ map.collectionShards.getD collection ∅ := by
  rw [shardsForCollection, Std.ExtTreeMap.getD_eq_getD_getElem?]
  cases map.collectionShards[collection]? with
  | none => simp
  | some used => simp

theorem shardsForCollection_pairwise (map : ShardMap) (collection : String) :
    (map.shardsForCollection collection).Pairwise (· < ·) := by
  rw [shardsForCollection]
  cases map.collectionShards[collection]? with
  | none => exact List.Pairwise.nil
  | some used =>
      exact used.ordered_toList.imp fun before => Nat.compare_eq_lt.mp before

theorem mem_shardsForCollection_shardFor {map : ShardMap} {collection : String}
    {shard : ShardId} (used : shard ∈ map.shardsForCollection collection)
    (other : String) (recordId : Uuid) :
    shard ∈ (map.shardFor other recordId).2.shardsForCollection collection := by
  rw [mem_shardsForCollection] at used ⊢
  rw [shardFor]
  split
  · exact used
  · simp only [Std.ExtTreeMap.getD_insert]
    split
    · rename_i same
      rw [Std.LawfulEqCmp.compare_eq_iff_eq] at same
      subst same
      exact Std.ExtTreeSet.mem_insert.mpr (.inr used)
    · exact used

theorem mem_shardsForCollection_routed {map : ShardMap} {collection : String}
    {shard : ShardId} (used : shard ∈ map.shardsForCollection collection)
    (records : List (String × Uuid)) :
    shard ∈ (map.routed records).shardsForCollection collection := by
  induction records generalizing map with
  | nil => exact used
  | cons record rest induction =>
      exact induction (mem_shardsForCollection_shardFor used record.1 record.2)

/-- The shard that a record is placed on is used from then on. -/
theorem placed_mem (map : ShardMap) (nonempty : map.ring ≠ []) (collection : String)
    (recordId : Uuid) :
    (map.shardFor collection recordId).1 ∈
      (map.shardFor collection recordId).2.shardsForCollection collection := by
  rw [mem_shardsForCollection, shardFor, if_neg (by simpa using nonempty)]
  simp

end ShardMap

namespace DistQueryCoordinator

open ShardMap

/-- The shard stands among the used ones where the hash of the write points. -/
def RankedByHash (coordinator : DistQueryCoordinator) (collection : String)
    (recordId : Uuid) (shard : ShardId) : Prop :=
  let used := coordinator.shardMap.shardsForCollection collection
  shard ∈ used ∧
    (used.countP fun other => decide (other < shard)) =
      (combinedHash collection recordId).toNat % used.length

instance (coordinator : DistQueryCoordinator) (collection : String) (recordId : Uuid)
    (shard : ShardId) : Decidable (coordinator.RankedByHash collection recordId shard) :=
  inferInstanceAs (Decidable (_ ∧ _))

theorem routeWrite_eq_iff_ranked (coordinator : DistQueryCoordinator) {collection : String}
    (used : coordinator.shardMap.shardsForCollection collection ≠ []) (recordId : Uuid)
    (shard : ShardId) :
    coordinator.routeWrite collection recordId = shard ↔
      coordinator.RankedByHash collection recordId shard := by
  have within : (combinedHash collection recordId).toNat %
      (coordinator.shardMap.shardsForCollection collection).length <
        (coordinator.shardMap.shardsForCollection collection).length :=
    Nat.mod_lt _ (List.length_pos_iff.mpr used)
  rw [RankedByHash, ← getElem?_iff_of_strict (shardsForCollection_pairwise _ _),
    routeWrite, if_neg (by simpa using used), List.getD_eq_getElem?_getD,
    List.getElem?_eq_getElem within]
  simp

theorem targetShards_pointLookup (coordinator : DistQueryCoordinator) {collection : String}
    (used : coordinator.shardMap.shardsForCollection collection ≠ []) (recordId : Uuid) :
    coordinator.targetShards collection (.pointLookup recordId) =
      .ok [coordinator.routeWrite collection recordId] := by
  rw [targetShards, if_neg (by simpa using used)]

/-- A record is looked up where it was placed exactly when its shard's rank among
the used shards, at the time of the lookup, is the one that the hash of the write
gives; or when no shard is used, as on a ring without nodes. -/
theorem lookup_reaches_placement_iff (map : ShardMap) (collection : String)
    (recordId : Uuid) (later : List (String × Uuid)) (oversampleFactor : Nat) :
    let placed := map.shardFor collection recordId
    let coordinator : DistQueryCoordinator := ⟨placed.2.routed later, oversampleFactor⟩
    let used := coordinator.shardMap.shardsForCollection collection
    (coordinator.routeWrite collection recordId = placed.1 ∧
        (used ≠ [] →
          coordinator.targetShards collection (.pointLookup recordId) = .ok [placed.1])) ↔
      used = [] ∨ coordinator.RankedByHash collection recordId placed.1 := by
  intro placed coordinator used
  by_cases unused : used = []
  · -- The collection would use the shard if the ring had an entry.
    have noRing : map.ring = [] := by
      by_contra nonempty
      have isUsed : placed.1 ∈ used :=
        mem_shardsForCollection_routed (placed_mem map nonempty collection recordId) later
      rw [unused] at isUsed
      cases isUsed
    have atZero : placed.1 = 0 := by
      simp only [placed, shardFor, noRing, List.isEmpty_nil, if_true]
    have routedZero : coordinator.routeWrite collection recordId = 0 := by
      rw [routeWrite, if_pos (by simpa using unused)]
    exact iff_of_true ⟨routedZero.trans atZero.symm, fun isUsed => absurd unused isUsed⟩
      (.inl unused)
  · rw [or_iff_right unused, targetShards_pointLookup coordinator unused,
      ← routeWrite_eq_iff_ranked coordinator unused]
    constructor
    · exact fun both => both.1
    · exact fun found => ⟨found, fun _ => by rw [found]⟩

/-- Two records of one collection on two shards: the first is looked up on the
shard of the second. -/
theorem lookup_misses_record :
    let first : Uuid := Vector.replicate 16 0
    let second : Uuid := Vector.replicate 16 1
    let placed := twoNodes.shardFor "a" first
    let coordinator : DistQueryCoordinator := ⟨placed.2.routed [("a", second)], 3⟩
    placed.1 = 1 ∧ coordinator.routeWrite "a" first = 0 ∧
      coordinator.targetShards "a" (.pointLookup first) = .ok [0] := by
  decide +kernel

end DistQueryCoordinator

end FunDB.Cluster
