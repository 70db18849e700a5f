import FunDB.Core.Record
import FunDB.Foundation.HashRing
import FunDB.Foundation.Text
import Mathlib.Algebra.Group.Nat.Defs
import Std.Data.ExtTreeMap
import Std.Data.ExtTreeSet

/-! # The shard map of a cluster

Nodes stand on a ring by the hashes of their virtual nodes, each virtual node
with a shard of its own. A separate table says which node owns a shard. -/

namespace FunDB.Cluster

open Std

abbrev NodeId := Nat

abbrev ShardId := Nat

abbrev SocketAddr := String

/-! ## Hashes -/

def fnvOffsetBasis : UInt64 := 14695981039346656037

def fnvPrime : UInt64 := 1099511628211

/-- FNV-1a with 64 bits. -/
def fnv1a64 (data : List UInt8) : UInt64 :=
  data.foldl (fun hash byte => (hash ^^^ byte.toUInt64) * fnvPrime) fnvOffsetBasis

def asBytes (text : String) : List UInt8 := text.toUTF8.data.toList

/-- The four bytes of a `u32`, lowest first. -/
def toLeBytes (value : Nat) : List UInt8 :=
  [UInt8.ofNat value, UInt8.ofNat (value / 2 ^ 8), UInt8.ofNat (value / 2 ^ 16),
    UInt8.ofNat (value / 2 ^ 24)]

def virtualNodeHash (node : NodeId) (replica : Nat) : UInt64 :=
  fnv1a64 (asBytes (toString node ++ "#" ++ toString replica))

/-! ## The map -/

structure ShardMigration where
  shardId : ShardId
  fromNode : NodeId
  toNode : NodeId
deriving DecidableEq, Repr

structure RingEntry where
  hash : UInt64
  nodeId : NodeId
  shardId : ShardId
deriving DecidableEq, Repr

def RingEntry.place (entry : RingEntry) : Nat := entry.hash.toNat

/-- Shard ids count up to the last `u32`. -/
structure ShardMap where
  virtualNodes : Nat
  ring : List RingEntry
  nodeAddrs : ExtTreeMap NodeId SocketAddr
  shardOwners : ExtTreeMap ShardId NodeId
  collectionShards : ExtTreeMap String (ExtTreeSet ShardId)
  replicationFactor : Nat
  nextShardId : ShardId

namespace ShardMap

def new (virtualNodes : Nat) : ShardMap where
  virtualNodes := virtualNodes
  ring := []
  nodeAddrs := ∅
  shardOwners := ∅
  collectionShards := ∅
  replicationFactor := 1
  nextShardId := 0

def setReplicationFactor (map : ShardMap) (factor : Nat) : ShardMap :=
  { map with replicationFactor := factor }

/-! ## Routing -/

def routingKey (collection : String) (recordId : Uuid) : String :=
  collection ++ "/" ++ String.join (recordId.toList.map Text.hexByte)

/-- The shard of the first entry from the hash on, with wrap-around. -/
def successorShard (map : ShardMap) (keyHash : UInt64) : Option ShardId :=
  let pos := map.ring.findIdx fun entry => !decide (entry.hash < keyHash)
  let entry := if pos < map.ring.length then map.ring[pos]? else map.ring[0]?
  entry.map RingEntry.shardId

/-- The shard responsible for a record; the map notes that the collection uses
it. -/
def shardFor (map : ShardMap) (collection : String) (recordId : Uuid) :
    ShardId × ShardMap :=
  if map.ring.isEmpty then
    (0, map)
  else
    let hash := fnv1a64 (asBytes (routingKey collection recordId))
    -- The ring is not empty, so the entry exists.
    let shard := (map.successorShard hash).getD 0
    let used := (map.collectionShards.getD collection ∅).insert shard
    (shard, { map with collectionShards := map.collectionShards.insert collection used })

def shardsForCollection (map : ShardMap) (collection : String) : List ShardId :=
  (map.collectionShards[collection]?.map ExtTreeSet.toList).getD []

/-- The address of the owner of a shard. The source panics where there is none. -/
def leaderAddr (map : ShardMap) (shard : ShardId) : Option SocketAddr := do
  let nodeId ← map.shardOwners[shard]?
  map.nodeAddrs[nodeId]?

def nodeForShard (map : ShardMap) (shard : ShardId) : Option NodeId :=
  map.shardOwners[shard]?

/-! ## Topology changes -/

/-- Assign one ring entry's shard to the entry's node. -/
def assignShard (newNode : Option NodeId)
    (assigned : List ShardMigration × ExtTreeMap ShardId NodeId) (entry : RingEntry) :
    List ShardMigration × ExtTreeMap ShardId NodeId :=
  match assigned.2[entry.shardId]? with
  | some oldOwner =>
      if oldOwner ≠ entry.nodeId then
        let migrations :=
          if newNode.all fun node => entry.nodeId = node then
            assigned.1 ++ [⟨entry.shardId, oldOwner, entry.nodeId⟩]
          else
            assigned.1
        (migrations, assigned.2.insert entry.shardId entry.nodeId)
      else
        assigned
  | none => (assigned.1, assigned.2.insert entry.shardId entry.nodeId)

def recomputeOwnership (map : ShardMap) (newNode : Option NodeId) :
    List ShardMigration × ShardMap :=
  let (migrations, shardOwners) :=
    map.ring.foldl (assignShard newNode) ([], map.shardOwners)
  (migrations, { map with shardOwners := shardOwners })

/-- Push the ring entry of one replica. There is none once the counter of shard
ids overflows. -/
def pushReplica (map : ShardMap) (node : NodeId) (replica : Nat) : Option ShardMap :=
  if map.nextShardId + 1 < 2 ^ 32 then
    some { map with
      ring := map.ring ++ [⟨virtualNodeHash node replica, node, map.nextShardId⟩]
      nextShardId := map.nextShardId + 1 }
  else
    none

def addNode (sorting : HashRing.PositionSort RingEntry.place) (map : ShardMap)
    (node : NodeId) (addr : SocketAddr) : Option (List ShardMigration × ShardMap) :=
  if node ∈ map.nodeAddrs then
    some ([], map)
  else do
    let map := { map with nodeAddrs := map.nodeAddrs.insert node addr }
    let map ← (List.range map.virtualNodes).foldlM
      (fun map replica => map.pushReplica node replica) map
    let map := { map with ring := sorting.sort map.ring }
    some (map.recomputeOwnership (some node))

def ownedShards (map : ShardMap) (node : NodeId) : List ShardId :=
  (map.shardOwners.toList.filter fun owned => owned.2 = node).map Prod.fst

/-- The node that takes over a shard of the removed node: the successor of the
shard's ring entry, or of the hash of its id when it has none. -/
def newOwner (ring : List RingEntry) (node : NodeId) (shard : ShardId) : Option NodeId :=
  match (ring.find? fun entry => entry.shardId = shard).map RingEntry.hash with
  | some entryHash =>
      ((ring.find? fun entry => entry.hash ≥ entryHash ∧ entry.nodeId ≠ node).or
        (ring.find? fun entry => entry.nodeId ≠ node)).map RingEntry.nodeId
  | none =>
      let hash := fnv1a64 (toLeBytes shard)
      ((ring.find? fun entry => entry.hash ≥ hash).or ring.head?).map RingEntry.nodeId

/-- Reassign one shard of the removed node. -/
def reassignShard (ring : List RingEntry) (node : NodeId)
    (assigned : List ShardMigration × ExtTreeMap ShardId NodeId) (shard : ShardId) :
    List ShardMigration × ExtTreeMap ShardId NodeId :=
  match newOwner ring node shard with
  | some newNode =>
      (assigned.1 ++ [⟨shard, node, newNode⟩], assigned.2.insert shard newNode)
  | none => assigned

def removeNode (map : ShardMap) (node : NodeId) : List ShardMigration × ShardMap :=
  if node ∉ map.nodeAddrs then
    ([], map)
  else
    let owned := map.ownedShards node
    let map := { map with
      ring := map.ring.filter fun entry => entry.nodeId ≠ node
      nodeAddrs := map.nodeAddrs.erase node }
    if map.ring.isEmpty then
      (owned.map fun shard => ⟨shard, node, 0⟩, { map with shardOwners := ∅ })
    else
      let (migrations, shardOwners) :=
        owned.foldl (reassignShard map.ring node) ([], map.shardOwners)
      (migrations, { map with shardOwners := shardOwners })

inductive Reachable (virtualNodes : Nat) : ShardMap → Prop where
  | new : Reachable virtualNodes (ShardMap.new virtualNodes)
  | addNode {map after : ShardMap} {migrations : List ShardMigration}
      (sorting : HashRing.PositionSort RingEntry.place) (node : NodeId) (addr : SocketAddr) :
      Reachable virtualNodes map →
        map.addNode sorting node addr = some (migrations, after) →
          Reachable virtualNodes after
  | removeNode {map : ShardMap} (node : NodeId) :
      Reachable virtualNodes map → Reachable virtualNodes (map.removeNode node).2
  | shardFor {map : ShardMap} (collection : String) (recordId : Uuid) :
      Reachable virtualNodes map →
        Reachable virtualNodes (map.shardFor collection recordId).2

end ShardMap

end FunDB.Cluster
