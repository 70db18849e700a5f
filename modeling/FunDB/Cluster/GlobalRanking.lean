import FunDB.Cluster.Aggregation

/-! # Distributed rankings

The records that a query over the shards of a collection returns, beside the
best of all records at once. -/

namespace FunDB.Cluster

open OrderStatistic Ranking

/-- What a query does not change in a record. -/
def ShardRecord.source {Score : Type} (record : ShardRecord Score) : Uuid × List UInt8 :=
  (record.id, record.payload)

/-- The result has the best values of the records, in descending order. -/
structure IsBest {Score Value : Type} [LinearOrder Value] (value : ShardRecord Score → Value)
    (count : Nat) (records result : List (ShardRecord Score)) : Prop where
  descending : result.Pairwise fun left right => value right ≤ value left
  length_eq : result.length = min count records.length
  values_perm : (result.map value).Perm ((best value count records).map value)
  sources : (result.map ShardRecord.source).Subperm (records.map ShardRecord.source)

namespace IsBest

variable {Score Value : Type} [LinearOrder Value] (value : ShardRecord Score → Value)
  (count : Nat) {records others : List (ShardRecord Score)}

theorem best_iff
    (sources : (others.map ShardRecord.source).Subperm (records.map ShardRecord.source)) :
    IsBest value count records (best value count others) ↔
      (best value count others).map value = (best value count records).map value := by
  constructor
  · intro isBest
    apply eq_of_reaching_eq (List.pairwise_map.mpr isBest.descending)
      (List.pairwise_map.mpr (best_pairwise value count records))
    intro bound
    exact isBest.values_perm.countP_eq _
  · intro same
    have lengths := congrArg List.length same
    simp only [List.length_map, length_best] at lengths
    exact {
      descending := best_pairwise value count others
      length_eq := (length_best value count others).trans lengths
      values_perm := same ▸ List.Perm.refl _
      sources := (subperm_map _ (best_subperm value count others)).trans sources }

end IsBest

/-! ## What the coordinator gathers -/

namespace DistQueryCoordinator

variable {Score : Type}

def capped (record : ShardRecord Score) : ShardRecord Score :=
  { record with confidence := min record.confidence 1 }

theorem gathered_map (shards : List ShardId) (result : ShardId → ShardResult Score) :
    gathered (shards.map result) =
      (shards.flatMap fun shard => (result shard).records).map capped := by
  rw [gathered, List.flatMap_map, List.map_flatMap]
  rfl

section Gathered

variable (records : List (ShardRecord Score))

theorem source_capped :
    (records.map capped).map ShardRecord.source = records.map ShardRecord.source := by
  rw [List.map_map]
  rfl

theorem score_capped :
    (records.map capped).map ShardRecord.score = records.map ShardRecord.score := by
  rw [List.map_map]
  rfl

theorem map_capped (low : ∀ record ∈ records, record.confidence ≤ 1) :
    records.map capped = records := by
  have same : records.map capped = records.map id := by
    apply List.map_congr_left
    intro record member
    rw [capped, min_eq_left (low record member)]
    rfl
  rw [same, List.map_id]

end Gathered

variable [LinearOrder Score] (coordinator : DistQueryCoordinator)
  (executor : MockShardExecutor Score) (similarity : Similarity Score) (collection : String)

/-! ## Vector scans -/

section VectorScan

variable (queryVector : List ℚ) (topK : Nat) (indexName : String)

/-- The records of a collection, shard by shard, with the scores of a query. -/
def scoredRecords : List (List (ShardRecord Score)) :=
  (coordinator.collectionRecords executor collection).map
    (List.map (MockShardExecutor.scored similarity queryVector))

theorem merge_vectorScan (bound : Nat) :
    (merge (.vectorScan queryVector topK indexName)
      ((coordinator.shardMap.shardsForCollection collection).map fun shard =>
        executor.executeOnShard similarity shard
          (.vectorScan queryVector bound indexName)) 0).records =
      best ShardRecord.score topK
        (((coordinator.scoredRecords executor similarity collection queryVector).flatMap
          (best ShardRecord.score bound)).map capped) := by
  rw [merge, gathered_map, scoredRecords, collectionRecords, List.map_map, List.flatMap_map]
  rfl

/-- A vector scan returns the best of all records when its shards are asked for
at least as many as it returns. -/
theorem vectorScan_isBest {bound : Nat} (enough : topK ≤ bound) :
    IsBest ShardRecord.score topK
      (coordinator.scoredRecords executor similarity collection queryVector).flatten
      (best ShardRecord.score topK
        (((coordinator.scoredRecords executor similarity collection queryVector).flatMap
          (best ShardRecord.score bound)).map capped)) := by
  apply (IsBest.best_iff _ _ _).mpr
  · rw [best_scores_congr ShardRecord.score topK (.of_eq (score_capped _))]
    exact best_of_bests ShardRecord.score topK _ enough
  · rw [source_capped]
    exact subperm_map _ (subperm_parts _ (best_split ShardRecord.score bound))

end VectorScan

/-! ## Scans with a limit -/

section Scan

variable (filter : Option String) (limit : Nat)

/-- Confidences are not capped, and each record that its shard drops is matched
by enough records that the shards keep. -/
def KeepsMostConfident : Prop :=
  let parts := coordinator.collectionRecords executor collection
  let kept := parts.flatMap (List.take limit)
  (limit = 0 ∨ ∀ record ∈ parts.flatten, record.confidence ≤ 1) ∧
    ∀ part ∈ parts, ∀ record ∈ part.drop limit,
      limit ≤ reaching (kept.map ShardRecord.confidence) record.confidence

theorem merge_scan :
    (merge (.scan filter (some limit))
      ((coordinator.shardMap.shardsForCollection collection).map fun shard =>
        executor.executeOnShard similarity shard (.scan filter (some limit))) 0).records =
      best ShardRecord.confidence limit
        (((coordinator.collectionRecords executor collection).flatMap
          (List.take limit)).map capped) := by
  rw [merge, gathered_map, collectionRecords, List.flatMap_map]
  rfl

omit [LinearOrder Score] in
/-- The best confidences can only be right where they are not above the cap. -/
theorem low_of_best_eq {kept all : List (ShardRecord Score)} (positive : 0 < limit)
    (same : (best ShardRecord.confidence limit (kept.map capped)).map ShardRecord.confidence =
      (best ShardRecord.confidence limit all).map ShardRecord.confidence) :
    ∀ record ∈ all, record.confidence ≤ 1 := by
  intro record member
  by_contra high
  have none : reaching ((kept.map capped).map ShardRecord.confidence) record.confidence = 0 := by
    apply List.countP_eq_zero.mpr
    intro value isValue
    rw [List.map_map] at isValue
    rcases List.mem_map.mp isValue with ⟨other, _, rfl⟩
    have belowCap : (capped other).confidence ≤ 1 := min_le_right _ _
    simpa using belowCap.trans_lt (not_le.mp high)
  have some : 0 < reaching (all.map ShardRecord.confidence) record.confidence :=
    List.countP_pos_iff.mpr ⟨record.confidence, List.mem_map_of_mem member, by simp⟩
  have counts := congrArg (reaching · record.confidence) same
  simp only [reaching_best, none] at counts
  omega

omit [LinearOrder Score] in
theorem scan_isBest_iff :
    IsBest ShardRecord.confidence limit
        (coordinator.collectionRecords executor collection).flatten
        (best ShardRecord.confidence limit
          (((coordinator.collectionRecords executor collection).flatMap
            (List.take limit)).map capped)) ↔
      coordinator.KeepsMostConfident executor collection limit := by
  have takes (part : List (ShardRecord Score)) :
      part.Perm (part.take limit ++ part.drop limit) := by
    rw [List.take_append_drop]
  have split := perm_parts (coordinator.collectionRecords executor collection) _ _ takes
  have among := subperm_parts (coordinator.collectionRecords executor collection) takes
  rw [KeepsMostConfident, IsBest.best_iff]
  · have dropped_iff := best_scores_eq_iff ShardRecord.confidence limit split
    simp only [List.mem_flatMap, forall_exists_index, and_imp] at dropped_iff
    rcases Nat.eq_zero_or_pos limit with rfl | positive
    · simp [best]
    · constructor
      · intro same
        have low := low_of_best_eq limit positive same
        rw [map_capped _ fun record member => low record (among.subset member)] at same
        exact ⟨.inr low, fun part isPart record behind =>
          dropped_iff.mp same record part isPart behind⟩
      · intro both
        have low := both.1.resolve_left (by omega)
        rw [map_capped _ fun record member => low record (among.subset member)]
        exact dropped_iff.mpr fun record part isPart behind => both.2 part isPart record behind
  · rw [source_capped]
    exact subperm_map _ among

end Scan

/-! ## Both queries -/

/-- A query returns the best of all records exactly when it is answered and, for a
scan, what the shards drop does not count. -/
theorem execute_isBest_iff (maxConcurrentShards : Nat) (queryVector : List ℚ) (topK : Nat)
    (word : topK < 2 ^ 64) (indexName : String)
    (oversampled : 1 ≤ coordinator.oversampleFactor) (filter : Option String) (limit : Nat) :
    ((∃ merged,
        coordinator.execute (executor.answer similarity) maxConcurrentShards collection
            (.vectorScan queryVector topK indexName) = some (.ok merged) ∧
          IsBest ShardRecord.score topK
            (coordinator.scoredRecords executor similarity collection queryVector).flatten
            merged.records) ↔
      coordinator.Answers maxConcurrentShards collection) ∧
    ((∃ merged,
        coordinator.execute (executor.answer similarity) maxConcurrentShards collection
            (.scan filter (some limit)) = some (.ok merged) ∧
          IsBest ShardRecord.confidence limit
            (coordinator.collectionRecords executor collection).flatten merged.records) ↔
      coordinator.Answers maxConcurrentShards collection ∧
        coordinator.KeepsMostConfident executor collection limit) := by
  constructor
  · have enough : topK ≤ min (topK * coordinator.oversampleFactor) (2 ^ 64 - 1) :=
      le_min (Nat.le_mul_of_pos_right _ oversampled) (Nat.le_sub_one_of_lt word)
    have isBest :=
      coordinator.vectorScan_isBest executor similarity collection queryVector topK enough
    rw [← merge_vectorScan coordinator executor similarity collection queryVector topK indexName]
      at isBest
    rw [exists_result_iff coordinator executor similarity maxConcurrentShards collection
      (.vectorScan queryVector topK indexName) trivial]
    exact and_iff_left isBest
  · rw [exists_result_iff coordinator executor similarity maxConcurrentShards collection
      (.scan filter (some limit)) trivial]
    apply and_congr_right'
    have records := merge_scan coordinator executor similarity collection filter limit
    exact (iff_of_eq (congrArg (IsBest ShardRecord.confidence limit _) records)).trans
      (coordinator.scan_isBest_iff executor collection limit)

/-- A record with a confidence, on a byte of payload. -/
def confident (id : UInt8) (confidence : ℚ) : ShardRecord ℚ :=
  { id := Vector.replicate 16 id, confidence := confidence, score := 0, payload := [id] }

/-- The sum of bytes over 255, for a query of magnitude 1. -/
def unitSimilarity : Similarity ℚ where
  byteSum bytes := total (bytes.map fun byte => (byte.toNat : ℚ) / 255)
  magnitude _ := 1
  divide total magnitude := total / magnitude

theorem execute_isBest_iff_kept :
    let executor := (MockShardExecutor.new.seedShard 0
      [confident 1 (1 / 2), confident 2 (1 / 4)]).seedShard 1 [confident 3 (3 / 4)]
    (∃ merged,
        twoShards.execute (executor.answer unitSimilarity) 16 "a"
            (.vectorScan [1] 2 "embedding") = some (.ok merged) ∧
          IsBest ShardRecord.score 2
            (twoShards.scoredRecords executor unitSimilarity "a" [1]).flatten merged.records) ∧
      ∃ merged,
        twoShards.execute (executor.answer unitSimilarity) 16 "a" (.scan none (some 1)) =
            some (.ok merged) ∧
          IsBest ShardRecord.confidence 1 (twoShards.collectionRecords executor "a").flatten
            merged.records := by
  intro executor
  have ranks := execute_isBest_iff twoShards executor unitSimilarity "a" 16 [1] 2
    (by decide) "embedding" (by decide) none 1
  have answers : twoShards.Answers 16 "a" := by decide +kernel
  refine ⟨ranks.1.mpr answers, ranks.2.mpr ⟨answers, ?_⟩⟩
  have parts : twoShards.collectionRecords executor "a" =
      [[confident 1 (1 / 2), confident 2 (1 / 4)], [confident 3 (3 / 4)]] := by decide +kernel
  rw [KeepsMostConfident, parts]
  decide +kernel

/-- A shard keeps the first record it has stored rather than its most confident
one. -/
theorem scan_drops_most_confident :
    let executor := MockShardExecutor.new.seedShard 0
      [confident 1 (1 / 10), confident 2 (9 / 10)]
    (twoShards.collectionRecords executor "a").flatten =
        [confident 1 (1 / 10), confident 2 (9 / 10)] ∧
      ∃ merged,
        twoShards.execute (executor.answer unitSimilarity) 16 "a" (.scan none (some 1)) =
            some (.ok merged) ∧
          merged.records = [confident 1 (1 / 10)] ∧
            ¬ IsBest ShardRecord.confidence 1 (twoShards.collectionRecords executor "a").flatten
              merged.records := by
  intro executor
  have parts : twoShards.collectionRecords executor "a" =
      [[confident 1 (1 / 10), confident 2 (9 / 10)], []] := by decide +kernel
  have records := merge_scan twoShards executor unitSimilarity "a" none 1
  have first : best ShardRecord.confidence 1
      (((twoShards.collectionRecords executor "a").flatMap (List.take 1)).map capped) =
        [confident 1 (1 / 10)] := by decide +kernel
  refine ⟨by rw [parts]; rfl, _, (execute_eq_some_iff twoShards executor unitSimilarity 16 "a"
    (.scan none (some 1)) trivial _).mpr ⟨by decide +kernel, rfl⟩,
    records.trans first, ?_⟩
  have drops : ¬ twoShards.KeepsMostConfident executor "a" 1 := by
    rw [KeepsMostConfident, parts]
    decide +kernel
  rw [← scan_isBest_iff, ← records] at drops
  exact drops

end DistQueryCoordinator

end FunDB.Cluster
