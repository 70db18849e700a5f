import FunDB.Cluster.WriteRouting
import FunDB.Foundation.FallibleRuns

/-! # Shards of a collection and their owners

The map remembers every shard that a collection has used. It forgets all owners
when the ring becomes empty. -/

namespace FunDB.Cluster.ShardMap

open FallibleRuns HashRing

inductive MapCall where
  | addNode (node : NodeId) (addr : SocketAddr)
  | removeNode (node : NodeId)
  | shardFor (collection : String) (recordId : Uuid)
deriving DecidableEq, Repr

/-- The map after a call. Adding a node panics once the shard ids overflow. -/
def perform (sorting : PositionSort RingEntry.place) (map : ShardMap) :
    MapCall → Option ShardMap
  | .addNode node addr => (map.addNode sorting node addr).map Prod.snd
  | .removeNode node => some (map.removeNode node).2
  | .shardFor collection recordId => some (map.shardFor collection recordId).2

/-- Every shard that is listed for a collection has an owner, and the owner an
address. -/
def Routable (map : ShardMap) : Prop :=
  ∀ collection, ∀ shard ∈ map.shardsForCollection collection,
    (map.nodeForShard shard).isSome ∧ (map.leaderAddr shard).isSome

/-- The call does not take the last entries off the ring while a collection has
used shards. -/
def KeepsUsedShards (map : ShardMap) : MapCall → Prop
  | .removeNode node =>
      node ∈ map.nodeAddrs → map.remaining node = [] →
        ∀ collection, map.shardsForCollection collection = []
  | _ => True

variable {sorting : PositionSort RingEntry.place} {map after : ShardMap}

theorem consistent_perform (consistent : map.Consistent) {call : MapCall}
    (performed : map.perform sorting call = some after) : after.Consistent := by
  cases call with
  | addNode node addr =>
      rcases Option.map_eq_some_iff.mp performed with ⟨⟨migrations, result⟩, added, rfl⟩
      exact consistent.addNode added
  | removeNode node =>
      cases performed
      exact consistent.removeNode node
  | shardFor collection recordId =>
      cases performed
      exact consistent.shardFor collection recordId

/-- Where the owners are registered, a shard with an owner has an address. -/
theorem Consistent.isSome_leaderAddr_iff (consistent : map.Consistent) (shard : ShardId) :
    (map.leaderAddr shard).isSome ↔ (map.nodeForShard shard).isSome := by
  rw [leaderAddr, nodeForShard]
  cases owned : map.shardOwners[shard]? with
  | none => simp
  | some node =>
      have registered := consistent.ownersRegistered shard node owned
      rw [Std.ExtTreeMap.mem_iff_isSome_getElem?] at registered
      simpa using registered

theorem Consistent.routable_iff (consistent : map.Consistent) :
    map.Routable ↔ ∀ collection, ∀ shard ∈ map.shardsForCollection collection,
      (map.nodeForShard shard).isSome := by
  simp only [Routable, consistent.isSome_leaderAddr_iff, and_self]

/-! ## What a call does to the owned shards -/

/-- An added node takes shards over but leaves none without owner. -/
theorem nodeForShard_addNode (consistent : map.Consistent) {node : NodeId} {addr : SocketAddr}
    {migrations : List ShardMigration}
    (added : map.addNode sorting node addr = some (migrations, after)) {shard : ShardId}
    (owned : (map.nodeForShard shard).isSome) : (after.nodeForShard shard).isSome := by
  rcases addNode_cases added with ⟨_, _, rfl⟩ | ⟨_, ring, _, perm, _, rfl, _, rfl⟩
  · exact owned
  · by_cases onRing : ∃ entry ∈ ring, entry.shardId = shard
    · rcases onRing with ⟨entry, member, rfl⟩
      have distinct := consistent.distinct_added node perm
      rw [nodeForShard, assignShards_owned (some node) distinct member]
      rfl
    · rw [nodeForShard, assignShards_other (some node) fun entry member same =>
        onRing ⟨entry, member, same⟩]
      exact owned

theorem shardsForCollection_addNode {node : NodeId} {addr : SocketAddr}
    {migrations : List ShardMigration}
    (added : map.addNode sorting node addr = some (migrations, after)) (collection : String) :
    after.shardsForCollection collection = map.shardsForCollection collection := by
  rcases addNode_cases added with ⟨_, _, rfl⟩ | ⟨_, _, _, _, _, _, _, rfl⟩
  · rfl
  · rfl

theorem shardsForCollection_removeNode (map : ShardMap) (node : NodeId) (collection : String) :
    (map.removeNode node).2.shardsForCollection collection =
      map.shardsForCollection collection := by
  rcases removeNode_cases map node with
    ⟨_, result⟩ | ⟨_, _, result⟩ | ⟨_, _, _, _, result⟩ <;> rw [result]
  · rfl
  · rfl

/-- Every shard of a removed node goes to another one, if another one is left. -/
theorem nodeForShard_removeNode {node : NodeId} (left : map.remaining node ≠ [])
    {shard : ShardId} (owned : (map.nodeForShard shard).isSome) :
    ((map.removeNode node).2.nodeForShard shard).isSome := by
  rcases removeNode_cases map node with
    ⟨_, result⟩ | ⟨_, empty, _⟩ | ⟨_, nonempty, _, rfl, result⟩
  · rw [result]
    exact owned
  · exact absurd empty left
  · have removed : ∀ entry ∈ map.remaining node, entry.nodeId ≠ node :=
      fun entry member => (mem_remaining.mp member).2
    rw [result, nodeForShard, reassignShards_owner nonempty removed]
    split
    · rcases exists_newOwner nonempty removed shard with ⟨entry, _, found⟩
      rw [found]
      rfl
    · exact owned

theorem nodeForShard_emptied {node : NodeId} (known : node ∈ map.nodeAddrs)
    (empty : map.remaining node = []) (shard : ShardId) :
    (map.removeNode node).2.nodeForShard shard = none := by
  rcases removeNode_cases map node with
    ⟨unknown, _⟩ | ⟨_, _, result⟩ | ⟨_, nonempty, _⟩
  · exact absurd known unknown
  · rw [result]
    simp [nodeForShard]
  · exact absurd empty nonempty

theorem used_of_shardFor {collection other : String} {recordId : Uuid} {shard : ShardId}
    (used : shard ∈ (map.shardFor collection recordId).2.shardsForCollection other) :
    shard ∈ map.shardsForCollection other ∨ ∃ entry ∈ map.ring, entry.shardId = shard := by
  rw [mem_shardsForCollection] at used ⊢
  rw [ShardMap.shardFor] at used
  split at used
  · exact .inl used
  · next nonempty =>
      let hash := fnv1a64 (asBytes (routingKey collection recordId))
      rcases exists_successor RingEntry.place (by simpa using nonempty) hash.toNat with
        ⟨entry, found⟩
      have placed : map.successorShard hash = some entry.shardId := by
        rw [successorShard_eq, found, Option.map_some]
      dsimp only at used
      rw [show map.successorShard (fnv1a64 (asBytes (routingKey collection recordId))) =
        some entry.shardId from placed, Option.getD_some, Std.ExtTreeMap.getD_insert] at used
      split at used
      · next same =>
          rw [Std.LawfulEqCmp.compare_eq_iff_eq] at same
          subst same
          rcases Std.ExtTreeSet.mem_insert.mp used with here | before
          · rw [Std.LawfulEqCmp.compare_eq_iff_eq] at here
            exact .inr ⟨entry, mem_of_successor found, here⟩
          · exact .inl before
      · exact .inl used

theorem nodeForShard_shardFor (map : ShardMap) (collection : String) (recordId : Uuid)
    (shard : ShardId) :
    (map.shardFor collection recordId).2.nodeForShard shard = map.nodeForShard shard := by
  rw [ShardMap.shardFor]
  split
  · rfl
  · rfl

/-! ## Runs -/

/-- A call keeps the listed shards owned exactly when it does not take the last
entries off the ring while there are such shards. -/
theorem routable_perform_iff (consistent : map.Consistent) (routable : map.Routable)
    {call : MapCall} (performed : map.perform sorting call = some after) :
    after.Routable ↔ map.KeepsUsedShards call := by
  have owned := consistent.routable_iff.mp routable
  rw [(consistent_perform consistent performed).routable_iff]
  cases call with
  | addNode node addr =>
      rcases Option.map_eq_some_iff.mp performed with ⟨⟨migrations, result⟩, added, rfl⟩
      refine iff_of_true (fun collection shard used => ?_) trivial
      rw [shardsForCollection_addNode added] at used
      exact nodeForShard_addNode consistent added (owned collection shard used)
  | shardFor collection recordId =>
      cases performed
      refine iff_of_true (fun other shard used => ?_) trivial
      rw [nodeForShard_shardFor]
      rcases used_of_shardFor used with before | ⟨entry, member, rfl⟩
      · exact owned other shard before
      · rw [nodeForShard, consistent.owned entry member]
        rfl
  | removeNode node =>
      cases performed
      simp only [shardsForCollection_removeNode]
      by_cases emptied : node ∈ map.nodeAddrs ∧ map.remaining node = []
      · rcases emptied with ⟨known, empty⟩
        simp only [KeepsUsedShards, known, empty, true_implies, nodeForShard_emptied known empty,
          Option.isSome_none, Bool.false_eq_true]
        simp only [List.eq_nil_iff_forall_not_mem]
      · refine iff_of_true (fun collection shard used => ?_) ?_
        · by_cases known : node ∈ map.nodeAddrs
          · exact nodeForShard_removeNode (fun empty => emptied ⟨known, empty⟩)
              (owned collection shard used)
          · rcases removeNode_cases map node with ⟨_, result⟩ | ⟨present, _⟩ | ⟨present, _⟩
            · rw [result]
              exact owned collection shard used
            · exact absurd present known
            · exact absurd present known
        · intro known empty
          exact absurd ⟨known, empty⟩ emptied

/-- Every shard listed for a collection has an owner in every state of a run
exactly when no call of the run takes the last entries off the ring while a
collection has used shards. -/
theorem used_shards_routable_iff (sorting : PositionSort RingEntry.place) (virtualNodes : Nat)
    (calls : List MapCall) :
    (∀ done, done <+: calls → ∀ map,
        attempt (perform sorting) (ShardMap.new virtualNodes) done = some map → map.Routable) ↔
      ∀ done call, done ++ [call] <+: calls → ∀ map after,
        attempt (perform sorting) (ShardMap.new virtualNodes) done = some map →
          map.perform sorting call = some after → map.KeepsUsedShards call := by
  refine holds_throughout_iff (perform sorting) (fun _ map => map.Routable) ?_ ?_
  · intro collection shard used
    simp [shardsForCollection, ShardMap.new] at used
  · intro done map call after reached performed routable
    have consistent : map.Consistent :=
      attempt_invariant (perform sorting) (fun _ map => map.Consistent)
        (Consistent.new virtualNodes)
        (fun _ _ _ _ before performed => consistent_perform before performed) reached
    exact routable_perform_iff consistent routable performed

/-- A record is routed on a ring of one node, the node leaves, and another one
joins. -/
def refilled : List MapCall :=
  [.addNode 1 "127.0.0.1:9001", .shardFor "a" (Vector.replicate 16 0), .removeNode 1,
    .addNode 2 "127.0.0.1:9002"]

/-- The collection still lists shard 0, which nobody owns. -/
theorem listed_shard_without_owner :
    ∃ map, attempt (perform (stableSort RingEntry.place)) (ShardMap.new 1) refilled = some map ∧
      map.shardsForCollection "a" = [0] ∧ map.nodeForShard 0 = none ∧
        map.leaderAddr 0 = none ∧ ¬ map.Routable := by
  have reached : (attempt (perform (stableSort RingEntry.place)) (ShardMap.new 1) refilled).map
      (fun map => (map.shardsForCollection "a", map.nodeForShard 0, map.leaderAddr 0)) =
        some ([0], none, none) := by
    decide +kernel
  rcases Option.map_eq_some_iff.mp reached with ⟨map, result, seen⟩
  simp only [Prod.mk.injEq] at seen
  rcases seen with ⟨listed, unowned, unreachable⟩
  refine ⟨map, result, listed, unowned, unreachable, ?_⟩
  intro routable
  have owned := (routable "a" 0 (by rw [listed]; exact List.mem_singleton_self 0)).1
  rw [unowned] at owned
  cases owned

end FunDB.Cluster.ShardMap
