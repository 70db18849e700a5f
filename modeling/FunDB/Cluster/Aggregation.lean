import FunDB.Cluster.DistQuery
import FunDB.Cluster.WriteRouting
import FunDB.Foundation.Extremum
import Mathlib.Data.Rat.Cast.Defs

/-! # Distributed aggregates

The aggregate of a collection, merged from those of its shards, beside the
aggregate of all its records at once. -/

namespace FunDB.Cluster

open Extremum

/-- The aggregate of all values at once; that of no value is 0. -/
def AggOp.central (values : List ℚ) : AggOp → ℚ
  | .count => values.length
  | .sum => total values
  | .avg => if values.isEmpty then 0 else total values / values.length
  | .min => values.min?.getD 0
  | .max => values.max?.getD 0

/-- The field of the result that holds the value of the operator. -/
def MergedResult.value {Score : Type} (merged : MergedResult Score) : AggOp → Option ℚ
  | .count => merged.totalCount.map fun count => (count : ℚ)
  | .sum | .avg | .min | .max => merged.aggregateValue

/-- An empty shard reports 0, which does no harm where some value is not above
it, or below it for the greatest; or where there is no value at all. -/
def AggOp.EmptyShardsHarmless (parts : List (List ℚ)) : AggOp → Prop
  | .count | .sum | .avg => True
  | .min => [] ∈ parts → parts.flatten = [] ∨ ∃ value ∈ parts.flatten, value ≤ 0
  | .max => [] ∈ parts → parts.flatten = [] ∨ ∃ value ∈ parts.flatten, 0 ≤ value

/-! ## Folds -/

theorem foldl_add (values : List ℚ) (start : ℚ) :
    values.foldl (· + ·) start = start + total values := by
  induction values generalizing start with
  | nil => exact (add_zero start).symm
  | cons value values induction =>
      have front : total (value :: values) = value + total values := by
        rw [total, List.foldl_cons, induction, zero_add]
      rw [List.foldl_cons, induction, front, add_assoc]

theorem total_append (left right : List ℚ) :
    total (left ++ right) = total left + total right := by
  rw [total, List.foldl_append, foldl_add]
  rfl

theorem total_flatten (parts : List (List ℚ)) :
    total (parts.map total) = total parts.flatten := by
  induction parts with
  | nil => rfl
  | cons part parts induction =>
      have front : total [total part] = total part := zero_add _
      rw [List.map_cons, List.flatten_cons, total_append, ← induction, ← List.singleton_append,
        total_append, front]

theorem foldl_some (choose : ℚ → ℚ → ℚ) (values : List ℚ) (start : ℚ) :
    values.foldl (fun kept value => some (kept.elim value fun kept => choose kept value))
        (some start) = some (values.foldl choose start) := by
  induction values generalizing start with
  | nil => rfl
  | cons value values induction => exact induction (choose start value)

theorem foldMin_eq (values : List ℚ) : foldMin values = leastOr 0 values := by
  cases values with
  | nil => rfl
  | cons value values =>
      rw [foldMin, List.foldl_cons]
      exact congrArg (Option.getD · 0) (foldl_some min values value)

theorem foldMax_eq (values : List ℚ) : foldMax values = leastOr (α := ℚᵒᵈ) (0 : ℚ) values := by
  cases values with
  | nil => rfl
  | cons value values =>
      rw [foldMax, List.foldl_cons]
      exact congrArg (Option.getD · 0) (foldl_some max values value)

theorem central_max (values : List ℚ) :
    AggOp.max.central values = leastOr (α := ℚᵒᵈ) (0 : ℚ) values := by
  cases values with
  | nil => rfl
  | cons value values => rfl

/-! ## Merged parts -/

/-- What the shards report and the coordinator makes of it. -/
def mergedValue (parts : List (List ℚ)) : AggOp → ℚ
  | .count => (parts.map List.length).sum
  | .sum => total (parts.map total)
  | .avg =>
      if (parts.map List.length).sum = 0 then 0
      else total (parts.map total) / ((parts.map List.length).sum : Nat)
  | .min => foldMin (parts.map foldMin)
  | .max => foldMax (parts.map foldMax)

theorem mergedValue_eq_central_iff (parts : List (List ℚ)) (op : AggOp) :
    mergedValue parts op = op.central parts.flatten ↔ op.EmptyShardsHarmless parts := by
  cases op with
  | count => simp [mergedValue, AggOp.central, AggOp.EmptyShardsHarmless, List.length_flatten]
  | sum => simp [mergedValue, AggOp.central, AggOp.EmptyShardsHarmless, total_flatten]
  | avg =>
      simp only [mergedValue, AggOp.central, AggOp.EmptyShardsHarmless,
        total_flatten, ← List.length_flatten, List.length_eq_zero_iff, List.isEmpty_iff]
  | min =>
      rw [mergedValue, foldMin_eq, funext foldMin_eq]
      exact leastOr_parts_iff parts
  | max =>
      rw [mergedValue, foldMax_eq, funext foldMax_eq, central_max]
      exact leastOr_parts_iff (α := ℚᵒᵈ) parts

namespace DistQueryCoordinator

variable {Score : Type} [LinearOrder Score]

/-- The confidences that a collection has on each of its shards. -/
def shardConfidences (coordinator : DistQueryCoordinator) (executor : MockShardExecutor Score)
    (collection : String) : List (List ℚ) :=
  (coordinator.collectionRecords executor collection).map
    (List.map ShardRecord.confidence)

theorem merge_aggregate_value (coordinator : DistQueryCoordinator)
    (executor : MockShardExecutor Score) (similarity : Similarity Score) (collection : String)
    (op : AggOp) (field : String) (filter : Option String) :
    (merge (.aggregate op field filter)
      ((coordinator.shardMap.shardsForCollection collection).map fun shard =>
        executor.executeOnShard similarity shard (.aggregate op field filter)) 0).value op =
      some (mergedValue (coordinator.shardConfidences executor collection) op) := by
  cases op <;>
    simp [merge, mergeAggregate, MergedResult.value, mergedValue, shardConfidences,
      collectionRecords, MockShardExecutor.executeOnShard, MockShardExecutor.aggregateOnShard,
      List.filterMap_map, Function.comp_def]

/-- An aggregate over the shards of a collection is that of all its records
exactly when the query is answered and no empty shard does harm. -/
theorem execute_eq_central_iff (coordinator : DistQueryCoordinator)
    (executor : MockShardExecutor Score) (similarity : Similarity Score)
    (maxConcurrentShards : Nat) (collection : String) (op : AggOp) (field : String)
    (filter : Option String) :
    (∃ merged,
      coordinator.execute (executor.answer similarity) maxConcurrentShards collection
          (.aggregate op field filter) = some (.ok merged) ∧
        merged.value op =
          some (op.central (coordinator.shardConfidences executor collection).flatten)) ↔
      coordinator.Answers maxConcurrentShards collection ∧
        op.EmptyShardsHarmless (coordinator.shardConfidences executor collection) := by
  have value := merge_aggregate_value coordinator executor similarity collection op field filter
  rw [← mergedValue_eq_central_iff, exists_result_iff coordinator executor similarity
    maxConcurrentShards collection (.aggregate op field filter) trivial]
  apply and_congr_right'
  exact value.congr_left.trans Option.some_inj

def twoShards : DistQueryCoordinator where
  shardMap := (ShardMap.twoNodes.shardFor "a" (Vector.replicate 16 0)).2.routed
    [("a", Vector.replicate 16 1)]
  oversampleFactor := 3

/-- An empty shard makes the least confidence 0. -/
theorem empty_shard_lowers_min :
    let record : ShardRecord Nat :=
      { id := Vector.replicate 16 1, confidence := 9 / 10, score := 0, payload := [] }
    let executor := (MockShardExecutor.new.seedShard 0 [record]).seedShard 1 []
    let similarity : Similarity Nat := ⟨fun _ => 0, fun _ => 0, fun _ _ => 0⟩
    twoShards.shardConfidences executor "a" = [[9 / 10], []] ∧
      ∃ merged,
        twoShards.execute (executor.answer similarity) 16 "a" (.aggregate .min "confidence" none) =
            some (.ok merged) ∧
          merged.value .min = some 0 ∧ AggOp.min.central [9 / 10] = 9 / 10 := by
  intro record executor similarity
  have confidences : twoShards.shardConfidences executor "a" = [[9 / 10], []] := by decide +kernel
  have returns := (execute_eq_some_iff twoShards executor similarity 16 "a"
    (.aggregate .min "confidence" none) trivial _).mpr ⟨by decide +kernel, rfl⟩
  have value := merge_aggregate_value twoShards executor similarity "a" .min "confidence" none
  rw [confidences] at value
  have isZero : mergedValue [[9 / 10], []] .min = 0 := by decide +kernel
  exact ⟨confidences, _, returns, value.trans (congrArg some isZero), rfl⟩

end DistQueryCoordinator

end FunDB.Cluster
