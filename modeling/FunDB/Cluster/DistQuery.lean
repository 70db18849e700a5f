import FunDB.Cluster.ShardMap
import FunDB.Foundation.Buckets
import FunDB.Foundation.Ranking
import Mathlib.Algebra.GroupWithZero.Nat
import Mathlib.Algebra.Order.Ring.Rat

/-! # Routing of distributed queries

How the coordinator chooses the shards of a query and what it sends to them. -/

namespace FunDB.Cluster

inductive DistQueryError where
  | shardTimeout (shard : ShardId)
  | shardFailed (shard : ShardId) (reason : String)
  | noShards
  | mergeError (message : String)
deriving DecidableEq, Repr

inductive AggOp where
  | count
  | sum
  | avg
  | min
  | max
deriving DecidableEq, Repr

/-- A query; vectors are rational here. -/
inductive DistQuery where
  | scan (filter : Option String) (limit : Option Nat)
  | vectorScan (queryVector : List ℚ) (topK : Nat) (indexName : String)
  | pointLookup (recordId : Uuid)
  | aggregate (op : AggOp) (field : String) (filter : Option String)
deriving DecidableEq, Repr

/-- The coordinator's map and the factor by which it oversamples vector scans. -/
structure DistQueryCoordinator where
  shardMap : ShardMap
  oversampleFactor : Nat

namespace DistQueryCoordinator

/-- FNV-1a again, with the constants written out a second time. -/
def fnv1a (data : List UInt8) : UInt64 :=
  data.foldl (fun hash byte => (hash ^^^ byte.toUInt64) * 1099511628211) 14695981039346656037

/-- A `u64` from its bytes, lowest first. -/
def fromLeBytes (bytes : List UInt8) : UInt64 :=
  bytes.foldr (fun byte rest => rest * 256 + byte.toUInt64) 0

/-- The hash of a write: the two halves of the id folded together, and the hash
of the collection. -/
def combinedHash (collection : String) (recordId : Uuid) : UInt64 :=
  let lo := fromLeBytes (recordId.toList.take 8)
  let hi := fromLeBytes ((recordId.toList.drop 8).take 8)
  (lo ^^^ hi) ^^^ fnv1a (asBytes collection)

/-- Route a write to one of the shards that the collection has used. -/
def routeWrite (coordinator : DistQueryCoordinator) (collection : String)
    (recordId : Uuid) : ShardId :=
  let shards := coordinator.shardMap.shardsForCollection collection
  if shards.isEmpty then
    0
  else
    let index := (combinedHash collection recordId).toNat % shards.length
    -- The index is within the list.
    shards.getD index 0

def targetShards (coordinator : DistQueryCoordinator) (collection : String)
    (query : DistQuery) : Except DistQueryError (List ShardId) :=
  let shards := coordinator.shardMap.shardsForCollection collection
  if shards.isEmpty then
    .error .noShards
  else
    match query with
    | .pointLookup recordId => .ok [coordinator.routeWrite collection recordId]
    | _ => .ok shards

/-- The query that each shard gets: a vector scan asks for more than it returns. -/
def scatteredQuery (coordinator : DistQueryCoordinator) : DistQuery → DistQuery
  | .vectorScan queryVector topK indexName =>
      .vectorScan queryVector (min (topK * coordinator.oversampleFactor) (2 ^ 64 - 1)) indexName
  | query => query

end DistQueryCoordinator

end FunDB.Cluster

/-! ## Scatter and gather

A query runs on every shard of a collection, and the coordinator merges what the
shards return. Confidences are rational; scores are of any linear order, with
the arithmetic of the similarity as a parameter. -/

namespace FunDB.Cluster

open Ranking

structure ShardRecord (Score : Type) where
  id : Uuid
  confidence : ℚ
  score : Score
  payload : List UInt8
deriving DecidableEq

structure ShardResult (Score : Type) where
  shardId : ShardId
  nodeId : NodeId
  records : List (ShardRecord Score)
  partialCount : Option Nat
  /-- The least or greatest confidence where the aggregate asks for it. -/
  partialSum : Option ℚ

structure MergedResult (Score : Type) where
  records : List (ShardRecord Score)
  totalCount : Option Nat
  aggregateValue : Option ℚ
  shardsQueried : Nat
  shardsFailed : Nat
deriving DecidableEq

/-- The arithmetic of the similarity score: the sum of bytes over 255, the
magnitude of a vector, and their quotient. -/
structure Similarity (Score : Type) where
  byteSum : List UInt8 → Score
  magnitude : List ℚ → Score
  divide : Score → Score → Score

def Similarity.score {Score : Type} (similarity : Similarity Score) (queryVector : List ℚ)
    (payload : List UInt8) : Score :=
  similarity.divide (similarity.byteSum (payload.take 4)) (similarity.magnitude queryVector)

/-! ## One shard -/

/-- `sum()` -/
def total (values : List ℚ) : ℚ :=
  values.foldl (· + ·) 0

/-- `fold(f64::INFINITY, f64::min)`, and 0 where that stays infinite. -/
def foldMin (values : List ℚ) : ℚ :=
  (values.foldl (fun least value => some (least.elim value fun least => min least value))
    none).getD 0

/-- `fold(f64::NEG_INFINITY, f64::max)`, and 0 where that stays infinite. -/
def foldMax (values : List ℚ) : ℚ :=
  (values.foldl (fun most value => some (most.elim value fun most => max most value))
    none).getD 0

structure MockShardExecutor (Score : Type) where
  data : Dict ShardId (List (ShardRecord Score))

namespace MockShardExecutor

variable {Score : Type}

def new : MockShardExecutor Score := ⟨∅⟩

def seedShard (executor : MockShardExecutor Score) (shard : ShardId)
    (records : List (ShardRecord Score)) : MockShardExecutor Score :=
  ⟨executor.data.insert shard records⟩

def shardRecords (executor : MockShardExecutor Score) (shard : ShardId) :
    List (ShardRecord Score) :=
  (executor.data.lookup shard).getD []

def aggregateOnShard (confidences : List ℚ) : AggOp → Option Nat × Option ℚ
  | .count => (some confidences.length, none)
  | .sum => (none, some (total confidences))
  | .avg => (some confidences.length, some (total confidences))
  | .min => (none, some (foldMin confidences))
  | .max => (none, some (foldMax confidences))

def scored (similarity : Similarity Score) (queryVector : List ℚ) (record : ShardRecord Score) :
    ShardRecord Score :=
  { record with score := similarity.score queryVector record.payload }

variable [LinearOrder Score]

def executeOnShard (similarity : Similarity Score) (executor : MockShardExecutor Score)
    (shard : ShardId) (query : DistQuery) : ShardResult Score :=
  let shardRecords := executor.shardRecords shard
  let (records, partialCount, partialSum) :=
    match query with
    | .scan _ limit =>
        match limit with
        | some lim => (shardRecords.take lim, none, none)
        | none => (shardRecords, none, none)
    | .vectorScan queryVector topK _ =>
        let scored := shardRecords.map (scored similarity queryVector)
        ((ranked ShardRecord.score scored).take topK, none, none)
    | .pointLookup recordId => (shardRecords.filter fun record => record.id = recordId, none, none)
    | .aggregate op _ _ => ([], aggregateOnShard (shardRecords.map ShardRecord.confidence) op)
  { shardId := shard
    nodeId := shard
    records := records
    partialCount := partialCount
    partialSum := partialSum }

/-- What the coordinator hears from a shard. -/
def answer (similarity : Similarity Score) (executor : MockShardExecutor Score) (shard : ShardId)
    (query : DistQuery) : Except DistQueryError (ShardResult Score) :=
  .ok (executor.executeOnShard similarity shard query)

end MockShardExecutor

/-! ## The coordinator -/

/-- Windows of `size` items each, the last one perhaps shorter. -/
def windows {Item : Type} (size : Nat) : Nat → List Item → List (List Item)
  | 0, _ => []
  | fuel + 1, items =>
      if items.isEmpty then [] else items.take size :: windows size fuel (items.drop size)

namespace DistQueryCoordinator

variable {Score : Type}

/-- One outcome for each shard, window by window. The source panics on windows
of size zero. -/
def scatter (answer : ShardId → DistQuery → Except DistQueryError (ShardResult Score))
    (maxConcurrentShards : Nat) (shards : List ShardId) (query : DistQuery) :
    Option (List (Except DistQueryError (ShardResult Score))) :=
  if maxConcurrentShards = 0 then none
  else
    some ((windows maxConcurrentShards shards.length shards).flatMap fun chunk =>
      chunk.map fun shard => answer shard query)

def confidenceFloorForShard (_ : ShardResult Score) : ℚ := 1

/-- The records of all shards, their confidences capped. -/
def gathered (shardResults : List (ShardResult Score)) : List (ShardRecord Score) :=
  shardResults.flatMap fun result => result.records.map fun record =>
    { record with confidence := min record.confidence (confidenceFloorForShard result) }

def mergeAggregate (shardResults : List (ShardResult Score)) : AggOp → Option Nat × Option ℚ
  | .count => (some (shardResults.filterMap ShardResult.partialCount).sum, none)
  | .sum => (none, some (total (shardResults.filterMap ShardResult.partialSum)))
  | .avg =>
      let totalSum := total (shardResults.filterMap ShardResult.partialSum)
      let totalCount := (shardResults.filterMap ShardResult.partialCount).sum
      (none, some (if totalCount = 0 then 0 else totalSum / totalCount))
  | .min => (none, some (foldMin (shardResults.filterMap ShardResult.partialSum)))
  | .max => (none, some (foldMax (shardResults.filterMap ShardResult.partialSum)))

variable [LinearOrder Score]

def merge (query : DistQuery) (shardResults : List (ShardResult Score)) (failures : Nat) :
    MergedResult Score :=
  let (records, totalCount, aggregateValue) :=
    match query with
    | .scan _ limit =>
        let allRecords := ranked ShardRecord.confidence (gathered shardResults)
        match limit with
        | some lim => (allRecords.take lim, none, none)
        | none => (allRecords, none, none)
    | .vectorScan _ topK _ =>
        ((ranked ShardRecord.score (gathered shardResults)).take topK, none, none)
    | .pointLookup _ => ((shardResults.flatMap ShardResult.records).take 1, none, none)
    | .aggregate op _ _ => ([], mergeAggregate shardResults op)
  { records := records
    totalCount := totalCount
    aggregateValue := aggregateValue
    shardsQueried := shardResults.length + failures
    shardsFailed := failures }

/-- `none` where the source panics. -/
def execute (coordinator : DistQueryCoordinator)
    (answer : ShardId → DistQuery → Except DistQueryError (ShardResult Score))
    (maxConcurrentShards : Nat) (collection : String) (query : DistQuery) :
    Option (Except DistQueryError (MergedResult Score)) :=
  match coordinator.targetShards collection query with
  | .error error => some (.error error)
  | .ok shards =>
      (scatter answer maxConcurrentShards shards (coordinator.scatteredQuery query)).map
        fun outcomes =>
          let successes := outcomes.filterMap Except.toOption
          let failures := outcomes.countP fun outcome => outcome.toOption.isNone
          .ok (merge query successes failures)

/-! ## Where every shard answers -/

theorem windows_flatten {Item : Type} {size : Nat} (positive : 0 < size) (fuel : Nat)
    {items : List Item} (enough : items.length ≤ fuel) :
    (windows size fuel items).flatten = items := by
  induction fuel generalizing items with
  | zero =>
      rw [List.length_eq_zero_iff.mp (Nat.le_zero.mp enough)]
      rfl
  | succ fuel induction =>
      rw [windows]
      split
      · rename_i empty
        rw [List.isEmpty_iff.mp empty]
        rfl
      · rename_i nonempty
        have shorter : (items.drop size).length ≤ fuel := by
          rw [List.length_drop]
          omega
        rw [List.flatten_cons, induction shorter, List.take_append_drop]

def collectionRecords (coordinator : DistQueryCoordinator) (executor : MockShardExecutor Score)
    (collection : String) : List (List (ShardRecord Score)) :=
  (coordinator.shardMap.shardsForCollection collection).map executor.shardRecords

/-- The collection has a shard, and windows hold one. -/
def Answers (coordinator : DistQueryCoordinator) (maxConcurrentShards : Nat)
    (collection : String) : Prop :=
  coordinator.shardMap.shardsForCollection collection ≠ [] ∧ 0 < maxConcurrentShards

instance (coordinator : DistQueryCoordinator) (maxConcurrentShards : Nat) (collection : String) :
    Decidable (coordinator.Answers maxConcurrentShards collection) :=
  inferInstanceAs (Decidable (_ ≠ _ ∧ _))

/-- Queries that go to all shards of a collection. -/
def Scattered : DistQuery → Prop
  | .pointLookup _ => False
  | .scan _ _ | .vectorScan _ _ _ | .aggregate _ _ _ => True

section Outcomes

variable (shards : List ShardId) (result : ShardId → ShardResult Score)

omit [LinearOrder Score] in
theorem filterMap_ok : (shards.map fun shard => (.ok (result shard) :
    Except DistQueryError (ShardResult Score))).filterMap Except.toOption =
      shards.map result := by
  rw [List.filterMap_map, ← List.filterMap_eq_map]
  rfl

omit [LinearOrder Score] in
theorem countP_ok : ((shards.map fun shard => (.ok (result shard) :
    Except DistQueryError (ShardResult Score))).countP fun outcome =>
      outcome.toOption.isNone) = 0 := by
  rw [List.countP_map]
  exact List.countP_eq_zero.mpr fun shard _ => Bool.false_ne_true

end Outcomes

theorem scatter_answer (executor : MockShardExecutor Score) (similarity : Similarity Score)
    {maxConcurrentShards : Nat} (positive : 0 < maxConcurrentShards) (shards : List ShardId)
    (query : DistQuery) :
    scatter (executor.answer similarity) maxConcurrentShards shards query =
      some (shards.map fun shard => .ok (executor.executeOnShard similarity shard query)) := by
  have together : ((windows maxConcurrentShards shards.length shards).flatMap fun chunk => chunk) =
      shards := by
    rw [List.flatMap_id']
    exact windows_flatten positive _ le_rfl
  rw [scatter, if_neg (by omega), ← List.map_flatMap, together]
  rfl

/-- A query returns what merging the answers of all shards gives. -/
theorem execute_eq_some_iff (coordinator : DistQueryCoordinator)
    (executor : MockShardExecutor Score) (similarity : Similarity Score)
    (maxConcurrentShards : Nat) (collection : String) (query : DistQuery)
    (scattered : Scattered query) (merged : MergedResult Score) :
    coordinator.execute (executor.answer similarity) maxConcurrentShards collection query =
        some (.ok merged) ↔
      coordinator.Answers maxConcurrentShards collection ∧
        merged = merge query
          ((coordinator.shardMap.shardsForCollection collection).map fun shard =>
            executor.executeOnShard similarity shard (coordinator.scatteredQuery query)) 0 := by
  have target : coordinator.targetShards collection query =
      if (coordinator.shardMap.shardsForCollection collection).isEmpty then .error .noShards
      else .ok (coordinator.shardMap.shardsForCollection collection) := by
    cases query with
    | pointLookup recordId => exact scattered.elim
    | scan filter limit => rfl
    | vectorScan queryVector topK indexName => rfl
    | aggregate op field filter => rfl
  rw [execute, target]
  by_cases empty : coordinator.shardMap.shardsForCollection collection = []
  · simp [empty, Answers]
  · rw [if_neg (by simpa using empty)]
    rcases Nat.eq_zero_or_pos maxConcurrentShards with rfl | positive
    · simp [scatter, Answers]
    · have answers : coordinator.Answers maxConcurrentShards collection := ⟨empty, positive⟩
      simp only [scatter_answer executor similarity positive, answers, true_and, Option.map_some,
        Option.some.injEq, Except.ok.injEq, filterMap_ok, countP_ok]
      exact eq_comm

/-- What holds of the result of a query holds of the merged answers. -/
theorem exists_result_iff (coordinator : DistQueryCoordinator)
    (executor : MockShardExecutor Score) (similarity : Similarity Score)
    (maxConcurrentShards : Nat) (collection : String) (query : DistQuery)
    (scattered : Scattered query) (holds : MergedResult Score → Prop) :
    (∃ merged,
      coordinator.execute (executor.answer similarity) maxConcurrentShards collection query =
          some (.ok merged) ∧ holds merged) ↔
      coordinator.Answers maxConcurrentShards collection ∧
        holds (merge query
          ((coordinator.shardMap.shardsForCollection collection).map fun shard =>
            executor.executeOnShard similarity shard (coordinator.scatteredQuery query)) 0) := by
  have returns := execute_eq_some_iff coordinator executor similarity maxConcurrentShards
    collection query scattered
  constructor
  · intro found
    rcases found with ⟨merged, executed, held⟩
    rcases (returns merged).mp executed with ⟨answers, rfl⟩
    exact ⟨answers, held⟩
  · intro both
    exact ⟨_, (returns _).mpr ⟨both.1, rfl⟩, both.2⟩

end DistQueryCoordinator

end FunDB.Cluster
