import FunDB.Foundation.Overlay
import FunDB.Storage.BlockCache

/-! # The age of a cached block

A block that can never fit is dropped before the entry of its key is removed. -/

namespace FunDB.Storage.BlockCache

open FallibleRuns Overlay

/-- The block that a call inserts under a key. -/
def Call.inserted (call : Call) (key : CacheKey) : Option (List UInt8) :=
  match call with
  | .get _ => none
  | .insert other data => if other = key then some data else none

/-- The block of the last insertion of a key, kept or dropped. -/
def lastInserted (calls : List Call) (key : CacheKey) : Option (List UInt8) :=
  newest Call.inserted calls key

theorem lastInserted_concat (calls : List Call) (call : Call) (key : CacheKey) :
    lastInserted (calls ++ [call]) key = (call.inserted key).or (lastInserted calls key) := by
  rw [lastInserted, newest_append, newest_singleton, lastInserted]

/-- A block that is found is the one that was inserted last. -/
def Fresh (calls : List Call) (cache : BlockCache) : Prop :=
  ∀ key data, (cache.get key).1 = some data → lastInserted calls key = some data

/-- The call does not insert a block that can never fit under a cached key. -/
def ReplacesInPlace (cache : BlockCache) : Call → Prop
  | .get _ => True
  | .insert key data => cache.capacityBytes < data.length → key ∉ cache.cache

variable {cache after : BlockCache} {key : CacheKey} {data : List UInt8} {calls : List Call}

theorem get_fst (cache : BlockCache) (key : CacheKey) :
    (cache.get key).1 = cache.cache.lookup key := by
  rcases get_cases cache key with ⟨absent, result⟩ | ⟨_, result⟩ <;> rw [result]
  exact (AList.lookup_eq_none.mpr absent).symm

/-! ## What a call leaves in the cache -/

theorem get_snd_cache (cache : BlockCache) (key : CacheKey) :
    (cache.get key).2.cache = cache.cache ∧
      (cache.get key).2.capacityBytes = cache.capacityBytes := by
  rcases get_cases cache key with ⟨_, result⟩ | ⟨_, result⟩ <;> rw [result] <;> exact ⟨rfl, rfl⟩

theorem lookup_of_lookup_erase {blocks : Dict CacheKey (List UInt8)} {gone : CacheKey}
    (found : (AList.erase gone blocks).lookup key = some data) :
    key ≠ gone ∧ blocks.lookup key = some data := by
  by_cases same : key = gone
  · subst same
    rw [AList.lookup_erase] at found
    cases found
  · rw [AList.lookup_erase_ne same] at found
    exact ⟨same, found⟩

/-- The entry of the inserted key is gone, and no other block changes. -/
theorem removeExisting_lookup {removed : BlockCache}
    (result : cache.removeExisting key = some removed) :
    removed.capacityBytes = cache.capacityBytes ∧
      ∀ other block, removed.cache.lookup other = some block →
        other ≠ key ∧ cache.cache.lookup other = some block := by
  rw [removeExisting] at result
  split at result
  · next absent =>
      cases result
      refine ⟨rfl, fun other block found => ⟨fun same => ?_, found⟩⟩
      rw [same, absent] at found
      cases found
  · rcases Option.bind_eq_some_iff.mp result with ⟨currentBytes, _, built⟩
    cases built
    exact ⟨rfl, fun other block found => lookup_of_lookup_erase found⟩

theorem evictLoop_lookup {capacity dataLen : Nat} {order rest : List CacheKey}
    {currentBytes bytes : Nat} {blocks left : Dict CacheKey (List UInt8)}
    (result : evictLoop capacity dataLen order currentBytes blocks = some (bytes, left, rest))
    (found : left.lookup key = some data) : blocks.lookup key = some data := by
  induction order generalizing currentBytes blocks with
  | nil =>
      rw [evictLoop] at result
      rcases Option.bind_eq_some_iff.mp result with ⟨wanted, _, built⟩
      split at built
      · cases built
        exact found
      · cases built
        exact found
  | cons oldest order induction =>
      rw [evictLoop] at result
      rcases Option.bind_eq_some_iff.mp result with ⟨wanted, _, built⟩
      split at built
      · split at built
        · exact induction built
        · rcases Option.bind_eq_some_iff.mp built with ⟨fewer, _, evicted⟩
          exact (lookup_of_lookup_erase (induction evicted)).2
      · cases built
        exact found

/-- A block that fits is found, and no other block changes. -/
theorem insert_lookup (room : data.length ≤ cache.capacityBytes)
    (result : cache.insert key data = some after) :
    after.capacityBytes = cache.capacityBytes ∧ after.cache.lookup key = some data ∧
      ∀ other block, other ≠ key → after.cache.lookup other = some block →
        cache.cache.lookup other = some block := by
  rw [insert, if_neg (Nat.not_lt.mpr room)] at result
  rcases Option.bind_eq_some_iff.mp result with ⟨removed, isRemoved, evicting⟩
  rcases Option.bind_eq_some_iff.mp evicting with ⟨⟨bytes, blocks, order⟩, isEvicted, counting⟩
  rcases Option.bind_eq_some_iff.mp counting with ⟨currentBytes, _, built⟩
  cases built
  rcases removeExisting_lookup isRemoved with ⟨sameCapacity, others⟩
  refine ⟨sameCapacity, AList.lookup_insert blocks, fun other block different found => ?_⟩
  dsimp only at found
  rw [AList.lookup_insert_ne different] at found
  exact (others other block (evictLoop_lookup isEvicted found)).2

/-! ## Runs -/

/-- Every cached block fits into the cache. -/
def Fitting (capacity : Nat) (cache : BlockCache) : Prop :=
  cache.capacityBytes = capacity ∧
    ∀ key data, cache.cache.lookup key = some data → data.length ≤ capacity

theorem Fitting.perform {capacity : Nat} (fitting : Fitting capacity cache) {call : Call}
    (performed : cache.perform call = some after) : Fitting capacity after := by
  rcases fitting with ⟨rfl, blocks⟩
  cases call with
  | get key =>
      cases performed
      rcases get_snd_cache cache key with ⟨sameCache, sameCapacity⟩
      exact ⟨sameCapacity, by rwa [sameCache]⟩
  | insert key data =>
      rcases Nat.lt_or_ge cache.capacityBytes data.length with large | room
      · have same : some cache = some after := (insert_of_large large).symm.trans performed
        cases same
        exact ⟨rfl, blocks⟩
      · rcases insert_lookup room performed with ⟨sameCapacity, inserted, others⟩
        refine ⟨sameCapacity, fun other block found => ?_⟩
        by_cases same : other = key
        · subst same
          rw [inserted] at found
          cases found
          exact room
        · exact blocks other block (others other block same found)

theorem Fresh.get (fresh : Fresh calls cache) (key : CacheKey) :
    Fresh (calls ++ [.get key]) (cache.get key).2 := by
  intro other block found
  rw [get_fst, (get_snd_cache cache key).1, ← get_fst] at found
  rw [lastInserted_concat]
  exact fresh other block found

theorem Fresh.insert (fresh : Fresh calls cache) (room : data.length ≤ cache.capacityBytes)
    (result : cache.insert key data = some after) :
    Fresh (calls ++ [.insert key data]) after := by
  rcases insert_lookup room result with ⟨_, inserted, others⟩
  intro other block found
  rw [get_fst] at found
  rw [lastInserted_concat, Call.inserted]
  split
  · next same =>
      subst same
      rw [← inserted, found]
      rfl
  · next different =>
      have kept := others other block (Ne.symm different) found
      rw [← get_fst] at kept
      exact fresh other block kept

/-- A dropped block leaves the key with the block that it had. -/
theorem Fresh.insert_of_large_iff (fresh : Fresh calls cache)
    (fitting : ∀ key data, cache.cache.lookup key = some data →
      data.length ≤ cache.capacityBytes)
    (large : cache.capacityBytes < data.length) :
    Fresh (calls ++ [.insert key data]) cache ↔ key ∉ cache.cache := by
  constructor
  · intro stays present
    rcases Option.isSome_iff_exists.mp (AList.lookup_isSome.mpr present) with ⟨block, found⟩
    have isLast := stays key block (by rw [get_fst, found])
    rw [lastInserted_concat, Call.inserted, if_pos rfl, Option.some_or] at isLast
    cases isLast
    exact absurd (fitting key data found) (Nat.not_le.mpr large)
  · intro absent other block found
    have different : key ≠ other := by
      intro same
      subst same
      rw [get_fst, AList.lookup_eq_none.mpr absent] at found
      cases found
    rw [lastInserted_concat, Call.inserted, if_neg different]
    exact fresh other block found

theorem fresh_perform_iff (fresh : Fresh calls cache) (fitting : Fitting capacity cache)
    {call : Call} (performed : cache.perform call = some after) :
    Fresh (calls ++ [call]) after ↔ cache.ReplacesInPlace call := by
  rcases fitting with ⟨rfl, blocks⟩
  cases call with
  | get key =>
      cases performed
      exact iff_of_true (fresh.get key) trivial
  | insert key data =>
      rcases Nat.lt_or_ge cache.capacityBytes data.length with large | room
      · have same : some cache = some after := (insert_of_large large).symm.trans performed
        cases same
        rw [fresh.insert_of_large_iff blocks large]
        exact ⟨fun absent _ => absent, fun absent => absent large⟩
      · exact iff_of_true (fresh.insert room performed) fun large =>
          absurd room (Nat.not_le.mpr large)

/-- Every block that is found in a run is the one inserted last exactly when no
call of the run inserts a block that can never fit under a cached key. -/
theorem found_block_fresh_iff (capacity : Nat) (calls : List Call) :
    (∀ done, done <+: calls → ∀ cache, attempt perform (new capacity) done = some cache →
        ∀ key data, (cache.get key).1 = some data → lastInserted done key = some data) ↔
      ∀ done call, done ++ [call] <+: calls → ∀ cache after,
        attempt perform (new capacity) done = some cache →
          cache.perform call = some after → cache.ReplacesInPlace call := by
  refine holds_throughout_iff perform Fresh ?_ ?_
  · intro key data found
    rw [get_fst] at found
    cases found
  · intro done cache call after reached performed fresh
    have fitting : Fitting capacity cache := by
      refine attempt_invariant perform (fun _ cache => Fitting capacity cache) ⟨rfl, ?_⟩ ?_ reached
      · intro key data found
        cases found
      · intro _ _ _ _ before performed
        exact before.perform performed
    exact fresh_perform_iff fresh fitting performed

/-- A block of ten bytes, and a longer one under the same key. -/
def outgrown : List Call :=
  [.insert ⟨"sst", 0⟩ (List.replicate 10 1), .insert ⟨"sst", 0⟩ (List.replicate 20 2)]

theorem outgrown_block_found :
    ∃ cache, attempt perform (new 10) outgrown = some cache ∧
      (cache.get ⟨"sst", 0⟩).1 = some (List.replicate 10 1) ∧
      lastInserted outgrown ⟨"sst", 0⟩ = some (List.replicate 20 2) ∧
      ¬ Fresh outgrown cache := by
  have reached : (attempt perform (new 10) outgrown).map (fun cache => (cache.get ⟨"sst", 0⟩).1) =
      some (some (List.replicate 10 1)) := by
    decide
  have isLast : lastInserted outgrown ⟨"sst", 0⟩ = some (List.replicate 20 2) := by
    decide
  rcases Option.map_eq_some_iff.mp reached with ⟨cache, result, found⟩
  refine ⟨cache, result, found, isLast, ?_⟩
  intro fresh
  have same := fresh ⟨"sst", 0⟩ _ found
  rw [isLast] at same
  exact absurd same (by decide)

end FunDB.Storage.BlockCache
