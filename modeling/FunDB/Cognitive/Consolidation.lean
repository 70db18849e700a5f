import FunDB.Cognitive.Memory

/-! # Consolidation

The pass over the entries drops exactly what the abstract pass over the indices of the
live memories drops. -/

namespace FunDB.Cognitive.AgentMemory

open Thinning

variable {Embedding Importance : Type} [LinearOrder Importance]
  (sim : Embedding → Embedding → ℚ)

/-! ## The pass over indices -/

def similarAt (entries : List (MemoryEntry Embedding Importance)) (first second : Nat) : Bool :=
  match entries[first]?, entries[second]? with
  | some a, some b => 9 / 10 < sim a.embedding b.embedding
  | _, _ => false

/-- The index of the less important of two entries, of equal ones the second. -/
def loserAt (entries : List (MemoryEntry Embedding Importance)) (first second : Nat) : Nat :=
  match entries[first]?, entries[second]? with
  | some a, some b => if b.importance ≤ a.importance then second else first
  | _, _ => first

def marked (entries : List (MemoryEntry Embedding Importance)) (dropped : List Nat) :
    List (MemoryEntry Embedding Importance) :=
  entries.mapIdx fun index entry => if index ∈ dropped then entry.forgotten else entry

omit [LinearOrder Importance] in
theorem getElem?_marked (entries : List (MemoryEntry Embedding Importance))
    (dropped : List Nat) (index : Nat) :
    (marked entries dropped)[index]? =
      entries[index]?.map fun entry =>
        if index ∈ dropped then entry.forgotten else entry :=
  List.getElem?_mapIdx

omit [LinearOrder Importance] in
theorem marked_nil (entries : List (MemoryEntry Embedding Importance)) :
    marked entries [] = entries := by
  apply List.ext_getElem?
  intro index
  rw [getElem?_marked]
  simp

omit [LinearOrder Importance] in
theorem modify_marked (entries : List (MemoryEntry Embedding Importance))
    (dropped : List Nat) (index : Nat) :
    (marked entries dropped).modify index MemoryEntry.forgotten =
      marked entries (index :: dropped) := by
  apply List.ext_getElem?
  intro place
  rw [List.getElem?_modify, getElem?_marked, getElem?_marked, Option.map_eq_map,
    Option.map_map]
  congr 1
  funext entry
  by_cases here : index = place
  · subst here
    by_cases already : index ∈ dropped <;>
      simp [already, MemoryEntry.forgotten]
  · have elsewhere : (place ∈ index :: dropped) ↔ place ∈ dropped := by
      simp [Ne.symm here]
    simp [here, elsewhere]

theorem loserAt_chosen (entries : List (MemoryEntry Embedding Importance))
    (first second : Nat) :
    loserAt entries first second = first ∨ loserAt entries first second = second := by
  unfold loserAt
  split
  · split
    · exact .inr rfl
    · exact .inl rfl
  · exact .inl rfl

omit [LinearOrder Importance] in
theorem mem_candidates {memory : AgentMemory Embedding Importance} {agentId : String}
    {index : Nat} :
    index ∈ memory.candidates agentId ↔
      ∃ entry, memory.entries[index]? = some entry ∧ entry.isLiveOf agentId = true := by
  simp only [candidates, List.mem_map, List.mem_filter, Prod.exists, exists_eq_right,
    List.mem_zipIdx_iff_getElem?]

omit [LinearOrder Importance] in
theorem candidates_increasing (memory : AgentMemory Embedding Importance)
    (agentId : String) : (memory.candidates agentId).Pairwise (· < ·) := by
  have sublist : (memory.candidates agentId).Sublist (List.range memory.entries.length) := by
    have indices : memory.entries.zipIdx.map Prod.snd = List.range memory.entries.length := by
      rw [List.zipIdx_map_snd, List.range_eq_range']
    rw [← indices]
    exact List.filter_sublist.map Prod.snd
  exact List.pairwise_lt_range.sublist sublist

omit [LinearOrder Importance] in
theorem tombstone_eq_false {agentId : String} {entry : MemoryEntry Embedding Importance}
    (live : entry.isLiveOf agentId = true) : entry.tombstone = false := by
  simpa using (Bool.and_eq_true_iff.mp live).1

/-- One pair of the pass is one pair of the abstract pass. -/
theorem consolidatePair_marked {memory : AgentMemory Embedding Importance} {agentId : String}
    {pair : Nat × Nat} (isFirst : pair.1 ∈ memory.candidates agentId)
    (isSecond : pair.2 ∈ memory.candidates agentId) (dropped : List Nat) :
    consolidatePair sim (marked memory.entries dropped, UInt32.ofNat dropped.length) pair =
      let after := visit (similarAt sim memory.entries) (loserAt memory.entries) dropped pair
      (marked memory.entries after, UInt32.ofNat after.length) := by
  rcases pair with ⟨first, second⟩
  rcases mem_candidates.mp isFirst with ⟨a, hereA, liveA⟩
  rcases mem_candidates.mp isSecond with ⟨b, hereB, liveB⟩
  have aliveA := tombstone_eq_false liveA
  have aliveB := tombstone_eq_false liveB
  have similar : similarAt sim memory.entries first second =
      decide (9 / 10 < sim a.embedding b.embedding) := by
    simp only [similarAt, hereA, hereB]
  have loser : loserAt memory.entries first second =
      if b.importance ≤ a.importance then second else first := by
    simp only [loserAt, hereA, hereB]
  simp only [consolidatePair, visit, getElem?_marked, hereA, hereB, Option.map_some, similar,
    loser]
  by_cases firstDropped : first ∈ dropped
  · simp [firstDropped, MemoryEntry.forgotten]
  by_cases secondDropped : second ∈ dropped
  · simp [secondDropped, MemoryEntry.forgotten]
  simp only [firstDropped, secondDropped, if_false, aliveA, aliveB, Bool.or_self,
    Bool.false_eq_true, or_self, decide_eq_true_eq]
  by_cases near : 9 / 10 < sim a.embedding b.embedding
  · rw [if_pos near, if_pos near, modify_marked, List.length_cons, UInt32.ofNat_add]
    rfl
  · rw [if_neg near, if_neg near]

/-- What the pass over an agent's memories drops. -/
def droppedBy (memory : AgentMemory Embedding Importance) (agentId : String) : List Nat :=
  thin (similarAt sim memory.entries) (loserAt memory.entries) (memory.candidates agentId)

/-- Consolidation drops what the abstract pass drops, and counts it. -/
theorem consolidate_eq (memory : AgentMemory Embedding Importance) (agentId : String) :
    memory.consolidate sim agentId =
      (UInt32.ofNat (droppedBy sim memory agentId).length,
        { memory with entries := marked memory.entries (droppedBy sim memory agentId) }) := by
  have run (pairs : List (Nat × Nat)) (inside : ∀ pair ∈ pairs,
      pair.1 ∈ memory.candidates agentId ∧ pair.2 ∈ memory.candidates agentId)
      (dropped : List Nat) :
      pairs.foldl (consolidatePair sim)
          (marked memory.entries dropped, UInt32.ofNat dropped.length) =
        let after := pairs.foldl (visit (similarAt sim memory.entries)
          (loserAt memory.entries)) dropped
        (marked memory.entries after, UInt32.ofNat after.length) := by
    induction pairs generalizing dropped with
    | nil => rfl
    | cons pair pairs induction =>
        rcases List.forall_mem_cons.mp inside with ⟨⟨isFirst, isSecond⟩, inside⟩
        rw [List.foldl_cons, consolidatePair_marked sim isFirst isSecond]
        exact induction inside _
  have all := run (orderedPairs (memory.candidates agentId))
    (fun _ visited => mem_of_mem_orderedPairs visited) []
  rw [marked_nil] at all
  have start : UInt32.ofNat ([] : List Nat).length = 0 := rfl
  rw [start] at all
  rw [consolidate, all]
  rfl

/-! ## What consolidation achieves -/

/-- A live memory of the same agent that is similar and at least as important. -/
def Redundant (memory : AgentMemory Embedding Importance) (agentId : String) (index : Nat)
    (entry : MemoryEntry Embedding Importance) : Prop :=
  entry.isLiveOf agentId = true ∧ ∃ place other, place ≠ index ∧
    memory.entries[place]? = some other ∧ other.isLiveOf agentId = true ∧
      9 / 10 < sim entry.embedding other.embedding ∧ entry.importance ≤ other.importance

def tombstones (memory : AgentMemory Embedding Importance) : Nat :=
  memory.entries.countP (·.tombstone)

structure Consolidates (agentId : String) (before : AgentMemory Embedding Importance)
    (count : UInt32) (after : AgentMemory Embedding Importance) : Prop where
  /-- No two live memories of the agent are similar. -/
  complete : ∀ (first second : Nat) (a b : MemoryEntry Embedding Importance), first ≠ second →
    after.entries[first]? = some a → after.entries[second]? = some b →
      a.isLiveOf agentId = true → b.isLiveOf agentId = true →
        ¬ 9 / 10 < sim a.embedding b.embedding
  /-- An entry is as it was, or it was redundant and is now forgotten. -/
  justified : ∀ index, after.entries[index]? = before.entries[index]? ∨
    ∃ entry, before.entries[index]? = some entry ∧
      after.entries[index]? = some entry.forgotten ∧ Redundant sim before agentId index entry
  clock : after.clock = before.clock
  /-- The count is that of the new tombstones, and exact where it can be. -/
  counted : before.tombstones ≤ after.tombstones ∧
    count = UInt32.ofNat (after.tombstones - before.tombstones) ∧
      (before.entries.length < 2 ^ 32 → count.toNat = after.tombstones - before.tombstones)
  again : after.consolidate sim agentId = (0, after)

section Marked

variable {sim} {memory : AgentMemory Embedding Importance} {agentId : String}

omit [LinearOrder Importance] in
theorem similarAt_comm (symmetric : ∀ left right, sim left right = sim right left)
    (entries : List (MemoryEntry Embedding Importance)) (first second : Nat) :
    similarAt sim entries first second = similarAt sim entries second first := by
  unfold similarAt
  cases entries[first]? with
  | none =>
      cases entries[second]? with
      | none => rfl
      | some b => rfl
  | some a =>
      cases entries[second]? with
      | none => rfl
      | some b => simp only [symmetric]

omit [LinearOrder Importance] in
theorem of_getElem?_marked {dropped : List Nat} {index : Nat}
    {entry : MemoryEntry Embedding Importance}
    (here : (marked memory.entries dropped)[index]? = some entry)
    (live : entry.isLiveOf agentId = true) :
    index ∉ dropped ∧ memory.entries[index]? = some entry ∧
      index ∈ memory.candidates agentId := by
  rw [getElem?_marked, Option.map_eq_some_iff] at here
  rcases here with ⟨original, here, made⟩
  by_cases isDropped : index ∈ dropped
  · rw [if_pos isDropped] at made
    subst made
    exact absurd (tombstone_eq_false live) (by simp [MemoryEntry.forgotten])
  · rw [if_neg isDropped] at made
    subst made
    exact ⟨isDropped, here, mem_candidates.mpr ⟨original, here, live⟩⟩

theorem marked_complete (symmetric : ∀ left right, sim left right = sim right left)
    {first second : Nat} {a b : MemoryEntry Embedding Importance} (different : first ≠ second)
    (hereA : (marked memory.entries (droppedBy sim memory agentId))[first]? = some a)
    (hereB : (marked memory.entries (droppedBy sim memory agentId))[second]? = some b)
    (liveA : a.isLiveOf agentId = true) (liveB : b.isLiveOf agentId = true) :
    ¬ 9 / 10 < sim a.embedding b.embedding := by
  rcases of_getElem?_marked hereA liveA with ⟨firstKept, entryA, isFirst⟩
  rcases of_getElem?_marked hereB liveB with ⟨secondKept, entryB, isSecond⟩
  have apart := thin_complete (loserAt_chosen memory.entries)
    (similarAt_comm symmetric memory.entries) isFirst isSecond different firstKept secondKept
  simpa only [similarAt, entryA, entryB, decide_eq_false_iff_not] using apart

theorem redundant_of_mem_droppedBy (symmetric : ∀ left right, sim left right = sim right left)
    {index : Nat} (isDropped : index ∈ droppedBy sim memory agentId) :
    ∃ entry, memory.entries[index]? = some entry ∧
      Redundant sim memory agentId index entry := by
  rcases exists_pair_of_mem_thin isDropped with ⟨first, second, pair, conflicting, lost⟩
  rcases mem_of_mem_orderedPairs (mem_orderedPairs.mpr pair) with ⟨isFirst, isSecond⟩
  have before : first < second := by
    have sorted := (candidates_increasing memory agentId).sublist pair
    exact List.pairwise_pair.mp sorted
  rcases mem_candidates.mp isFirst with ⟨a, hereA, liveA⟩
  rcases mem_candidates.mp isSecond with ⟨b, hereB, liveB⟩
  simp only [similarAt, hereA, hereB, decide_eq_true_eq] at conflicting
  simp only [loserAt, hereA, hereB] at lost
  by_cases keepA : b.importance ≤ a.importance
  · rw [if_pos keepA] at lost
    subst lost
    refine ⟨b, hereB, liveB, first, a, Nat.ne_of_lt before, hereA, liveA, ?_, keepA⟩
    rwa [symmetric]
  · rw [if_neg keepA] at lost
    subst lost
    exact ⟨a, hereA, liveA, second, b, Nat.ne_of_gt before, hereB, liveB, conflicting,
      le_of_lt (not_le.mp keepA)⟩

omit [LinearOrder Importance] in
/-- Every new mark on a live entry is one more tombstone. -/
theorem countP_marked {entries : List (MemoryEntry Embedding Importance)} {dropped : List Nat}
    (nodup : dropped.Nodup) (alive : ∀ index ∈ dropped, ∃ entry,
      entries[index]? = some entry ∧ entry.tombstone = false) :
    (marked entries dropped).countP (·.tombstone) =
      entries.countP (·.tombstone) + dropped.length := by
  induction dropped with
  | nil => rw [marked_nil, List.length_nil, Nat.add_zero]
  | cons index dropped induction =>
      rcases List.nodup_cons.mp nodup with ⟨fresh, nodup⟩
      rcases List.forall_mem_cons.mp alive with ⟨⟨entry, here, entryAlive⟩, alive⟩
      have marks : (marked entries dropped)[index]? = some entry := by
        rw [getElem?_marked, here, Option.map_some, if_neg fresh]
      rcases List.getElem?_eq_some_iff.mp marks with ⟨within, same⟩
      have forgets : (marked entries dropped).modify index MemoryEntry.forgotten =
          (marked entries dropped).set index entry.forgotten := by
        rw [List.modify_eq_set_getElem?, marks]
        rfl
      rw [← modify_marked, forgets, List.countP_set within, same, induction nodup alive,
        entryAlive, List.length_cons]
      simp [MemoryEntry.forgotten]
      omega

omit [LinearOrder Importance] in
theorem length_marked (entries : List (MemoryEntry Embedding Importance))
    (dropped : List Nat) : (marked entries dropped).length = entries.length :=
  List.length_mapIdx

end Marked

/-- Consolidation for any similarity that is symmetric. -/
theorem consolidate_spec (symmetric : ∀ left right, sim left right = sim right left)
    (memory : AgentMemory Embedding Importance) (agentId : String) :
    Consolidates sim agentId memory (memory.consolidate sim agentId).1
      (memory.consolidate sim agentId).2 := by
  rw [consolidate_eq]
  have alive : ∀ index ∈ droppedBy sim memory agentId, ∃ entry,
      memory.entries[index]? = some entry ∧ entry.tombstone = false := by
    intro index isDropped
    rcases redundant_of_mem_droppedBy symmetric isDropped with ⟨entry, here, live, -⟩
    exact ⟨entry, here, tombstone_eq_false live⟩
  have nodup : (droppedBy sim memory agentId).Nodup :=
    nodup_thin (loserAt_chosen memory.entries) _
  have count := countP_marked nodup alive
  have complete : ∀ (first second : Nat) (a b : MemoryEntry Embedding Importance),
      first ≠ second →
        (marked memory.entries (droppedBy sim memory agentId))[first]? = some a →
          (marked memory.entries (droppedBy sim memory agentId))[second]? = some b →
            a.isLiveOf agentId = true → b.isLiveOf agentId = true →
              ¬ 9 / 10 < sim a.embedding b.embedding :=
    fun _ _ _ _ different hereA hereB liveA liveB =>
      marked_complete symmetric different hereA hereB liveA liveB
  refine { complete := complete, justified := ?_, clock := rfl, counted := ?_, again := ?_ }
  · intro index
    dsimp only
    by_cases isDropped : index ∈ droppedBy sim memory agentId
    · rcases redundant_of_mem_droppedBy symmetric isDropped with ⟨entry, here, redundant⟩
      refine .inr ⟨entry, here, ?_, redundant⟩
      rw [getElem?_marked, here, Option.map_some, if_pos isDropped]
    · left
      rw [getElem?_marked]
      simp only [if_neg isDropped, Option.map_id']
  · have bound : (marked memory.entries (droppedBy sim memory agentId)).countP (·.tombstone) ≤
        memory.entries.length := by
      rw [← length_marked memory.entries (droppedBy sim memory agentId)]
      exact List.countP_le_length
    rw [count] at bound
    simp only [tombstones, count, Nat.add_sub_cancel_left]
    refine ⟨Nat.le_add_right _ _, trivial, ?_⟩
    intro few
    rw [UInt32.toNat_ofNat']
    exact Nat.mod_eq_of_lt (by omega)
  · have settled : droppedBy sim
        { memory with entries := marked memory.entries (droppedBy sim memory agentId) }
        agentId = [] := by
      apply thin_eq_nil
      intro first second pair
      have before : first < second := by
        have sorted := (candidates_increasing _ agentId).sublist pair
        exact List.pairwise_pair.mp sorted
      rcases mem_of_mem_orderedPairs (mem_orderedPairs.mpr pair) with ⟨isFirst, isSecond⟩
      rcases mem_candidates.mp isFirst with ⟨a, hereA, liveA⟩
      rcases mem_candidates.mp isSecond with ⟨b, hereB, liveB⟩
      have apart := complete first second a b (Nat.ne_of_lt before) hereA hereB liveA liveB
      simp only [similarAt, hereA, hereB, apart, decide_false]
    rw [consolidate_eq, settled]
    simp only [marked_nil]
    rfl

/-- Three memories in a row, the middle one similar to both others and the least
important. -/
theorem consolidate_spec_chain :
    let sim (left right : Int) : ℚ := if |left - right| ≤ 1 then 1 else 0
    let entry (place importance : Int) : MemoryEntry Int Int :=
      { id := Uuid.ofByte 0, agentId := "a", content := "", embedding := place, importance,
        decayRate := 0, createdAt := place, confidence := 1, tombstone := false }
    let memory : AgentMemory Int Int := ⟨[entry 0 3, entry 1 1, entry 2 2], 3⟩
    (memory.consolidate sim "a").1 = 1 ∧
      Consolidates sim "a" memory (memory.consolidate sim "a").1
        (memory.consolidate sim "a").2 :=
  ⟨by decide +kernel,
    consolidate_spec _ (fun left right => by simp only [abs_sub_comm left right]) _ "a"⟩

end FunDB.Cognitive.AgentMemory
