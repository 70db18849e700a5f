import FunDB.Cluster.ShardOwnership
import FunDB.Foundation.Laps

/-! # Replication groups

The followers of a shard are the next nodes that a walk around the ring meets
behind the first entry of the leader. -/

namespace FunDB.Cluster

open Laps Std

structure ReplicationGroup where
  shardId : ShardId
  leader : NodeId
  followers : List NodeId
  replicationFactor : Nat
deriving DecidableEq, Repr

/-- The walk that collects followers, from a place of the ring until there are
enough of them or the walk is back at the start. -/
def collectFollowers (ring : List RingEntry) (rf : Nat) (startPos : Fin ring.length)
    (idx : Fin ring.length) (seen : ExtTreeSet NodeId) (followers : List NodeId) :
    List NodeId :=
  if followers.length < rf - 1 ∧ idx ≠ startPos then
    let candidate := ring[idx].nodeId
    let (seen, followers) :=
      if candidate ∉ seen then (seen.insert candidate, followers ++ [candidate])
      else (seen, followers)
    if nextPlace idx = startPos then
      followers
    else
      collectFollowers ring rf startPos (nextPlace idx) seen followers
  else
    followers
termination_by remaining startPos idx
decreasing_by exact remaining_nextPlace_lt (by tauto)

/-- Looking at one candidate takes it over where it is new. -/
theorem take_firstSeen_cons {wanted : Nat} {seen after : ExtTreeSet NodeId}
    {followers longer : List NodeId} {candidate : NodeId} (room : followers.length < wanted)
    (looked : (if candidate ∉ seen then (seen.insert candidate, followers ++ [candidate])
      else (seen, followers)) = (after, longer)) (rest : List NodeId) :
    longer ++ (firstSeen (· ∈ after) rest).take (wanted - longer.length) =
      followers ++ (firstSeen (· ∈ seen) (candidate :: rest)).take
        (wanted - followers.length) := by
  split at looked
  · next isNew =>
      cases looked
      have grown : ∀ other, other ∈ seen.insert candidate ↔ other = candidate ∨ other ∈ seen := by
        intro other
        rw [ExtTreeSet.mem_insert, LawfulEqCmp.compare_eq_iff_eq, eq_comm]
      rw [firstSeen_cons_of_new isNew grown, List.append_assoc, List.length_append,
        List.length_singleton, show wanted - followers.length =
          (wanted - (followers.length + 1)) + 1 by omega]
      rfl
  · next isSeen =>
      cases looked
      rw [firstSeen_cons_of_seen (not_not.mp isSeen)]

/-- The walk adds the nodes that it meets first, as many as are wanted. -/
theorem collectFollowers_eq (ring : List RingEntry) (rf : Nat) (startPos idx : Fin ring.length)
    (seen : ExtTreeSet NodeId) (followers : List NodeId) :
    collectFollowers ring rf startPos idx seen followers =
      followers ++ (firstSeen (· ∈ seen) ((lap ring startPos idx).map RingEntry.nodeId)).take
        (rf - 1 - followers.length) := by
  fun_induction collectFollowers ring rf startPos idx seen followers with
  | case1 idx seen followers inside candidate after longer looked back =>
      have step := take_firstSeen_cons inside.1 looked []
      rw [lap_of_ne ring startPos inside.2, back, lap_self, List.map_cons, List.map_nil, ← step]
      simp
  | case2 idx seen followers inside candidate after longer looked away induction =>
      rw [induction, take_firstSeen_cons inside.1 looked, lap_of_ne ring startPos inside.2,
        List.map_cons]
  | case3 idx seen followers finished =>
      rcases Nat.lt_or_ge followers.length (rf - 1) with wanted | enough
      · have back : idx = startPos := by tauto
        rw [back, lap_self]
        simp
      · rw [Nat.sub_eq_zero_of_le enough, List.take_zero, List.append_nil]

namespace ShardMap

/-- The place of the first entry of a node, else 0. -/
def startPos (map : ShardMap) (leader : NodeId) : Nat :=
  (map.ring.findIdx? fun entry => entry.nodeId = leader).getD 0

theorem startPos_lt {map : ShardMap} (several : 1 < map.ring.length) (leader : NodeId) :
    map.startPos leader < map.ring.length := by
  rw [startPos]
  cases found : map.ring.findIdx? fun entry => entry.nodeId = leader with
  | none => exact Nat.lt_of_succ_lt several
  | some place => exact (List.findIdx?_eq_some_iff_findIdx_eq.mp found).1

def replicationGroup (map : ShardMap) (shard : ShardId) : Option ReplicationGroup := do
  let leader ← map.shardOwners[shard]?
  let rf := map.replicationFactor
  let followers :=
    if several : 1 < rf ∧ 1 < map.ring.length then
      let start : Fin map.ring.length := ⟨map.startPos leader, startPos_lt several.2 leader⟩
      collectFollowers map.ring rf start (nextPlace start) ((∅ : ExtTreeSet NodeId).insert leader)
        []
    else
      []
  return { shardId := shard, leader, followers, replicationFactor := rf }

/-! ## Where the walk goes -/

/-- The other nodes of the ring, in the order in which a walk from the leader's
first entry meets them. -/
def nodesAfter (map : ShardMap) (leader : NodeId) : List NodeId :=
  firstSeen (· = leader)
    ((map.ring.drop (map.startPos leader + 1) ++ map.ring.take (map.startPos leader)).map
      RingEntry.nodeId)

variable {map : ShardMap} {leader : NodeId}

theorem nodup_nodesAfter : (map.nodesAfter leader).Nodup := nodup_firstSeen

/-- The walk starts behind the first entry of the leader. -/
theorem split_startPos (onRing : ∃ entry ∈ map.ring, entry.nodeId = leader) :
    ∃ entry, entry.nodeId = leader ∧
      map.ring = map.ring.take (map.startPos leader) ++
        entry :: map.ring.drop (map.startPos leader + 1) ∧
      ∀ other ∈ map.ring.take (map.startPos leader), other.nodeId ≠ leader := by
  cases found : map.ring.findIdx? fun entry => entry.nodeId = leader with
  | none =>
      rcases onRing with ⟨entry, member, same⟩
      exact absurd same (by simpa using List.findIdx?_eq_none_iff.mp found entry member)
  | some place =>
      rcases List.findIdx?_eq_some_iff_getElem.mp found with ⟨within, isLeader, isFirst⟩
      have start : map.startPos leader = place := by rw [startPos, found, Option.getD_some]
      rw [start]
      refine ⟨map.ring[place], by simpa using isLeader, ?_, ?_⟩
      · rw [← List.drop_eq_getElem_cons within, List.take_append_drop]
      · intro other member
        rcases List.mem_take_iff_getElem.mp member with ⟨earlier, bound, rfl⟩
        have before : earlier < place := by omega
        simpa using isFirst earlier before

theorem mem_nodesAfter (onRing : ∃ entry ∈ map.ring, entry.nodeId = leader) {node : NodeId} :
    node ∈ map.nodesAfter leader ↔ (∃ entry ∈ map.ring, entry.nodeId = node) ∧ node ≠ leader := by
  rcases split_startPos onRing with ⟨first, ofLeader, split, _⟩
  have onLap (entry : RingEntry) : entry ∈ map.ring ↔ entry = first ∨
      entry ∈ map.ring.drop (map.startPos leader + 1) ++ map.ring.take (map.startPos leader) := by
    conv_lhs => rw [split]
    simp only [List.mem_append, List.mem_cons]
    tauto
  rw [nodesAfter, mem_firstSeen, List.mem_map]
  constructor
  · intro met
    rcases met with ⟨⟨entry, member, rfl⟩, other⟩
    exact ⟨⟨entry, (onLap entry).mpr (.inr member), rfl⟩, other⟩
  · intro present
    rcases present with ⟨⟨entry, member, rfl⟩, other⟩
    rcases (onLap entry).mp member with rfl | met
    · exact absurd ofLeader other
    · exact ⟨⟨entry, met, rfl⟩, other⟩

/-- The loop takes the nodes behind the leader, as many as the factor asks for. -/
theorem replicationGroup_eq {shard : ShardId} (owned : map.nodeForShard shard = some leader)
    (onRing : ∃ entry ∈ map.ring, entry.nodeId = leader) :
    map.replicationGroup shard = some
      { shardId := shard
        leader := leader
        followers := (map.nodesAfter leader).take (map.replicationFactor - 1)
        replicationFactor := map.replicationFactor } := by
  rw [nodeForShard] at owned
  have onlyLeader (node : NodeId) :
      node ∈ (∅ : ExtTreeSet NodeId).insert leader ↔ node = leader := by
    rw [ExtTreeSet.mem_insert, LawfulEqCmp.compare_eq_iff_eq, eq_comm]
    simp
  rw [replicationGroup, owned]
  simp only [Option.bind_eq_bind, Option.bind_some, Option.pure_def, Option.some_inj,
    ReplicationGroup.mk.injEq, true_and, and_true]
  split
  · next several =>
      rw [collectFollowers_eq, lap_nextPlace, nodesAfter, List.nil_append, List.length_nil,
        Nat.sub_zero]
      congr 1
      simp only [firstSeen, onlyLeader]
  · next alone =>
      rcases Nat.lt_or_ge 1 map.replicationFactor with wanted | single
      · -- One entry at most, and the lap around it is empty.
        have short : map.ring.length ≤ 1 := by omega
        rcases split_startPos onRing with ⟨first, _, split, _⟩
        have lengths := congrArg List.length split
        rw [List.length_append, List.length_cons] at lengths
        have behind : map.ring.drop (map.startPos leader + 1) = [] :=
          List.length_eq_zero_iff.mp (by omega)
        have before : map.ring.take (map.startPos leader) = [] :=
          List.length_eq_zero_iff.mp (by omega)
        rw [nodesAfter, behind, before]
        simp
      · rw [Nat.sub_eq_zero_of_le single, List.take_zero]

/-- Every registered node but the leader stands behind the leader. -/
theorem length_nodesAfter (consistent : map.Consistent) (positive : 1 ≤ map.virtualNodes)
    (registered : leader ∈ map.nodeAddrs) :
    (map.nodesAfter leader).length = map.nodeAddrs.size - 1 := by
  have onRing := consistent.onRing positive leader registered
  have isKey : leader ∈ map.nodeAddrs.keys := ExtTreeMap.mem_keys.mpr registered
  have distinct : map.nodeAddrs.keys.Nodup := ExtTreeMap.nodup_keys
  have same : (map.nodesAfter leader).Perm (map.nodeAddrs.keys.erase leader) := by
    apply (List.perm_ext_iff_of_nodup nodup_nodesAfter (distinct.erase leader)).mpr
    intro node
    rw [mem_nodesAfter onRing, distinct.mem_erase_iff, ExtTreeMap.mem_keys, and_comm]
    apply and_congr_right
    intro _
    constructor
    · intro entryOf
      rcases entryOf with ⟨entry, member, rfl⟩
      exact consistent.registered member
    · exact consistent.onRing positive node
  rw [same.length_eq, List.length_erase_of_mem isKey, ExtTreeMap.length_keys]

/-! ## Complete groups -/

/-- The group of an owned shard is led by the owner. Its followers are distinct
registered nodes, as many as the factor asks for and the cluster has, in the
order of the ring behind the first entry of the leader. -/
theorem replication_group_complete {virtualNodes : Nat} (positive : 1 ≤ virtualNodes)
    (reachable : Reachable virtualNodes map) (factor : Nat) {shard : ShardId}
    (owned : map.nodeForShard shard = some leader) :
    ∃ group before entry behind,
      (map.setReplicationFactor factor).replicationGroup shard = some group ∧
        group.leader = leader ∧
        group.followers.Nodup ∧
        (∀ follower ∈ group.followers, follower ∈ map.nodeAddrs ∧ follower ≠ leader) ∧
        group.followers.length = min (max factor 1 - 1) (map.nodeAddrs.size - 1) ∧
        map.ring = before ++ entry :: behind ∧ entry.nodeId = leader ∧
        (∀ other ∈ before, other.nodeId ≠ leader) ∧
        group.followers =
          (firstSeen (· = leader) ((behind ++ before).map RingEntry.nodeId)).take
            (factor - 1) := by
  have consistent := reachable.consistent
  have served : 1 ≤ map.virtualNodes := by rwa [reachable.virtualNodes_eq]
  have registered := consistent.ownersRegistered shard leader owned
  have onRing := consistent.onRing served leader registered
  rcases split_startPos onRing with ⟨entry, ofLeader, split, isFirst⟩
  have group : (map.setReplicationFactor factor).replicationGroup shard = some
      { shardId := shard
        leader := leader
        followers := (map.nodesAfter leader).take (factor - 1)
        replicationFactor := factor } := replicationGroup_eq owned onRing
  refine ⟨_, _, entry, _, group, rfl, ?_, ?_, ?_, split, ofLeader, isFirst, rfl⟩
  · exact nodup_nodesAfter.sublist (List.take_sublist _ _)
  · intro follower member
    rcases (mem_nodesAfter onRing).mp (List.mem_of_mem_take member) with
      ⟨⟨other, inRing, rfl⟩, different⟩
    exact ⟨consistent.registered inRing, different⟩
  · rw [List.length_take, length_nodesAfter consistent served registered]
    congr 1
    omega

/-- Node 2 leads the second shard of a cluster of two. -/
theorem replication_group_complete_pair :
    twoNodes.nodeForShard 1 = some 2 ∧
      ∃ group, (twoNodes.setReplicationFactor 3).replicationGroup 1 = some group ∧
        group.followers.length = 1 := by
  have owned : twoNodes.nodeForShard 1 = some 2 := by decide +kernel
  have size : twoNodes.nodeAddrs.size = 2 := by decide +kernel
  rcases replication_group_complete (by decide) twoNodes_reachable 3 owned with
    ⟨group, _, _, _, result, _, _, _, length, _⟩
  rw [size] at length
  exact ⟨owned, group, result, length⟩

end ShardMap

end FunDB.Cluster
