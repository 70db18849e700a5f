import FunDB.Foundation.Buckets
import FunDB.Foundation.FallibleRuns
import FunDB.Foundation.Recency

/-! # The block cache

A map from keys to blocks, the number of bytes in it, and the keys in the order
in which they were used. -/

namespace FunDB.Storage

open FallibleRuns Recency

/-- A file and the offset of a block in it. -/
structure CacheKey where
  fileId : String
  blockOffset : Nat
deriving DecidableEq, Repr

/-- `None` is the panic of an addition of `usize` that overflows. -/
def checkedAdd (left right : Nat) : Option Nat :=
  if left + right < 2 ^ 64 then some (left + right) else none

/-- `None` is the panic of a subtraction of `usize` that underflows. -/
def checkedSub (left right : Nat) : Option Nat :=
  if right ≤ left then some (left - right) else none

/-- The oldest key comes first. -/
structure BlockCache where
  capacityBytes : Nat
  currentBytes : Nat
  cache : Dict CacheKey (List UInt8)
  order : List CacheKey

namespace BlockCache

def new (capacityBytes : Nat) : BlockCache where
  capacityBytes := capacityBytes
  currentBytes := 0
  cache := ∅
  order := []

/-- Look up a block. A hit moves the key to the end. -/
def get (cache : BlockCache) (key : CacheKey) : Option (List UInt8) × BlockCache :=
  if key ∉ cache.cache then
    (none, cache)
  else
    (cache.cache.lookup key, { cache with order := cache.order.erase key ++ [key] })

def removeExisting (cache : BlockCache) (key : CacheKey) : Option BlockCache :=
  match cache.cache.lookup key with
  | none => some cache
  | some old => do
      let currentBytes ← checkedSub cache.currentBytes old.length
      return { cache with
        currentBytes := currentBytes
        cache := AList.erase key cache.cache
        order := cache.order.erase key }

/-- The loop that evicts the oldest keys until there is room. -/
def evictLoop (capacityBytes dataLen : Nat) (order : List CacheKey) (currentBytes : Nat)
    (cache : Dict CacheKey (List UInt8)) :
    Option (Nat × Dict CacheKey (List UInt8) × List CacheKey) := do
  let wanted ← checkedAdd currentBytes dataLen
  if wanted > capacityBytes then
    match order with
    | [] => return (currentBytes, cache, [])
    | oldestKey :: order =>
        match cache.lookup oldestKey with
        | none => evictLoop capacityBytes dataLen order currentBytes cache
        | some oldData => do
            let currentBytes ← checkedSub currentBytes oldData.length
            evictLoop capacityBytes dataLen order currentBytes (AList.erase oldestKey cache)
  else
    return (currentBytes, cache, order)

/-- Insert a block. A block that can never fit is dropped. -/
def insert (cache : BlockCache) (key : CacheKey) (data : List UInt8) : Option BlockCache :=
  let dataLen := data.length
  if dataLen > cache.capacityBytes then
    some cache
  else do
    let cache ← cache.removeExisting key
    let (currentBytes, blocks, order) ←
      evictLoop cache.capacityBytes dataLen cache.order cache.currentBytes cache.cache
    let currentBytes ← checkedAdd currentBytes dataLen
    return { cache with
      currentBytes := currentBytes
      cache := AList.insert key data blocks
      order := order ++ [key] }

inductive Call where
  | get (key : CacheKey)
  | insert (key : CacheKey) (data : List UInt8)
deriving DecidableEq, Repr

def perform (cache : BlockCache) : Call → Option BlockCache
  | .get key => some (cache.get key).2
  | .insert key data => cache.insert key data

/-! ## What is in the cache -/

/-- The number of bytes in the blocks. -/
def cachedBytes (blocks : Dict CacheKey (List UInt8)) : Nat :=
  (blocks.entries.map fun entry => entry.2.length).sum

/-- The length of the block of a key. -/
def blockLen (blocks : Dict CacheKey (List UInt8)) (key : CacheKey) : Nat :=
  ((blocks.lookup key).getD []).length

theorem blockLen_of_lookup {blocks : Dict CacheKey (List UInt8)} {key : CacheKey}
    {data : List UInt8} (found : blocks.lookup key = some data) :
    blockLen blocks key = data.length := by
  rw [blockLen, found, Option.getD_some]

/-- The bytes can be counted along any list of the keys. -/
theorem cachedBytes_eq {blocks : Dict CacheKey (List UInt8)} {order : List CacheKey}
    (distinct : order.Nodup) (listed : ∀ key, key ∈ order ↔ key ∈ blocks) :
    cachedBytes blocks = total (blockLen blocks) order := by
  have perm : order.Perm blocks.keys :=
    (List.perm_ext_iff_of_nodup distinct blocks.keys_nodup).mpr listed
  rw [total_eq_of_perm _ perm, total, AList.keys, List.keys, List.map_map, cachedBytes]
  congr 1
  apply List.map_congr_left
  intro entry member
  exact (blockLen_of_lookup (AList.mem_lookup_iff.mpr member)).symm

section Order

variable {blocks : Dict CacheKey (List UInt8)} {order : List CacheKey} {key : CacheKey}
variable {data : List UInt8}

theorem blockLen_erase {other : CacheKey} (different : other ≠ key) :
    blockLen (AList.erase key blocks) other = blockLen blocks other := by
  rw [blockLen, blockLen, AList.lookup_erase_ne different]

theorem blockLen_insert {other : CacheKey} (different : other ≠ key) :
    blockLen (AList.insert key data blocks) other = blockLen blocks other := by
  rw [blockLen, blockLen, AList.lookup_insert_ne different]

theorem listed_erase (distinct : order.Nodup) (listed : ∀ key, key ∈ order ↔ key ∈ blocks)
    (other : CacheKey) :
    other ∈ order.erase key ↔ other ∈ AList.erase key blocks := by
  rw [distinct.mem_erase_iff, AList.mem_erase, listed]

theorem total_erase (distinct : order.Nodup) (isListed : key ∈ order)
    (found : blocks.lookup key = some data) :
    total (blockLen blocks) order =
      data.length + total (blockLen (AList.erase key blocks)) (order.erase key) := by
  have others : ∀ other ∈ order.erase key,
      blockLen blocks other = blockLen (AList.erase key blocks) other := fun other member =>
    (blockLen_erase (distinct.mem_erase_iff.mp member).1).symm
  rw [total_eq_of_perm _ (List.perm_cons_erase isListed), total_cons, blockLen_of_lookup found,
    total_congr _ others]

theorem total_insert (absent : key ∉ order) :
    total (blockLen (AList.insert key data blocks)) (order ++ [key]) =
      total (blockLen blocks) order + data.length := by
  have others : ∀ other ∈ order,
      blockLen (AList.insert key data blocks) other = blockLen blocks other := fun other member =>
    blockLen_insert fun same => absent (same ▸ member)
  rw [total_append, total_cons, total_nil, Nat.add_zero, total_congr _ others,
    blockLen_of_lookup (AList.lookup_insert blocks)]

end Order

/-- The deque lists the cached keys, and the counter counts their bytes. -/
structure Sound (cache : BlockCache) : Prop where
  distinct : cache.order.Nodup
  listed : ∀ key, key ∈ cache.order ↔ key ∈ cache.cache
  counted : cache.currentBytes = total (blockLen cache.cache) cache.order
  bounded : cache.currentBytes ≤ cache.capacityBytes

theorem sound_new (capacityBytes : Nat) : (new capacityBytes).Sound where
  distinct := List.nodup_nil
  listed key := iff_of_false (by simp [new]) (AList.notMem_empty key)
  counted := rfl
  bounded := Nat.zero_le _

variable {cache : BlockCache} {key : CacheKey} {data : List UInt8}

theorem get_cases (cache : BlockCache) (key : CacheKey) :
    (key ∉ cache.cache ∧ cache.get key = (none, cache)) ∨
      (key ∈ cache.cache ∧ cache.get key =
        (cache.cache.lookup key, { cache with order := cache.order.erase key ++ [key] })) := by
  rw [get]
  split
  · next absent => exact .inl ⟨absent, rfl⟩
  · next present => exact .inr ⟨not_not.mp present, rfl⟩

theorem Sound.get (sound : cache.Sound) (key : CacheKey) : (cache.get key).2.Sound := by
  rcases get_cases cache key with ⟨_, result⟩ | ⟨present, result⟩ <;> rw [result]
  · exact sound
  · have isListed := (sound.listed key).mpr present
    have perm : (cache.order.erase key ++ [key]).Perm cache.order :=
      (List.perm_append_singleton key _).trans (List.perm_cons_erase isListed).symm
    exact
      { distinct := perm.nodup_iff.mpr sound.distinct
        listed := fun other => perm.mem_iff.trans (sound.listed other)
        counted := sound.counted.trans (total_eq_of_perm _ perm.symm)
        bounded := sound.bounded }

theorem removeExisting_spec (sound : cache.Sound) (key : CacheKey) :
    ∃ removed, cache.removeExisting key = some removed ∧
      removed.Sound ∧ removed.capacityBytes = cache.capacityBytes ∧
      removed.order = cache.order.erase key ∧
      ∀ other, removed.cache.lookup other =
        if other = key then none else cache.cache.lookup other := by
  rw [removeExisting]
  cases found : cache.cache.lookup key with
  | none =>
      have absent : key ∉ cache.order := fun member =>
        AList.lookup_eq_none.mp found ((sound.listed key).mp member)
      refine ⟨cache, rfl, sound, rfl, (List.erase_of_not_mem absent).symm, fun other => ?_⟩
      split
      · next same => rw [same, found]
      · rfl
  | some old =>
      have present : key ∈ cache.cache := AList.lookup_isSome.mp (by rw [found]; rfl)
      have isListed := (sound.listed key).mpr present
      have counted := sound.counted.trans (total_erase sound.distinct isListed found)
      have enough : old.length ≤ cache.currentBytes := by omega
      have kept : ∀ other, (AList.erase key cache.cache).lookup other =
          if other = key then none else cache.cache.lookup other := by
        intro other
        split
        · next same => rw [same, AList.lookup_erase]
        · next different => rw [AList.lookup_erase_ne different]
      refine ⟨{ cache with
        currentBytes := cache.currentBytes - old.length
        cache := AList.erase key cache.cache
        order := cache.order.erase key }, ?_, ?_, rfl, rfl, kept⟩
      · have difference : checkedSub cache.currentBytes old.length =
            some (cache.currentBytes - old.length) := if_pos enough
        simp only [difference, Option.bind_eq_bind, Option.bind_some]
        rfl
      · exact
          { distinct := sound.distinct.erase key
            listed := listed_erase sound.distinct sound.listed
            counted := by
              dsimp only
              omega
            bounded := Nat.le_trans (Nat.sub_le _ _) sound.bounded }

/-- The loop evicts the shortest front part that makes room, and neither the sum
nor the difference leaves `usize`. -/
theorem evictLoop_spec {capacity dataLen : Nat} (room : dataLen ≤ capacity)
    (small : capacity + capacity < 2 ^ 64) {order : List CacheKey} {currentBytes : Nat}
    {blocks : Dict CacheKey (List UInt8)} (distinct : order.Nodup)
    (listed : ∀ key, key ∈ order ↔ key ∈ blocks)
    (counted : currentBytes = total (blockLen blocks) order) (bounded : currentBytes ≤ capacity) :
    ∃ evicted kept left,
      evictLoop capacity dataLen order currentBytes blocks =
          some (total (blockLen blocks) kept, left, kept) ∧
        Evicts (blockLen blocks) capacity dataLen order evicted kept ∧
        ∀ key, left.lookup key = if key ∈ evicted then none else blocks.lookup key := by
  have sum : checkedAdd currentBytes dataLen = some (currentBytes + dataLen) :=
    if_pos (by omega)
  induction order generalizing currentBytes blocks with
  | nil =>
      have empty : currentBytes = 0 := counted
      refine ⟨[], [], blocks, ?_, evicts_nothing (by simpa using room), fun key => rfl⟩
      rw [evictLoop, sum]
      simp only [Option.bind_eq_bind, Option.bind_some]
      rw [if_neg (by omega), empty]
      rfl
  | cons oldest rest induction =>
      rw [evictLoop, sum]
      simp only [Option.bind_eq_bind, Option.bind_some]
      split
      · next tight =>
          have present := (listed oldest).mp List.mem_cons_self
          rcases Option.isSome_iff_exists.mp (AList.lookup_isSome.mpr present) with ⟨old, found⟩
          have listedRest : ∀ key, key ∈ (oldest :: rest).erase oldest ↔
              key ∈ AList.erase oldest blocks := listed_erase distinct listed
          have split := counted.trans (total_erase distinct List.mem_cons_self found)
          rw [List.erase_cons_head] at listedRest split
          rw [List.nodup_cons] at distinct
          have others : ∀ key ∈ rest,
              blockLen (AList.erase oldest blocks) key = blockLen blocks key := fun key member =>
            blockLen_erase fun same => distinct.1 (same ▸ member)
          have difference : checkedSub currentBytes old.length =
              some (currentBytes - old.length) := if_pos (by omega)
          have countedRest : currentBytes - old.length =
              total (blockLen (AList.erase oldest blocks)) rest := by omega
          rcases induction distinct.2 listedRest countedRest (by omega) (if_pos (by omega)) with
            ⟨evicted, kept, left, result, evicts, lookups⟩
          have weights := evicts.congr others
          have sameKept : total (blockLen (AList.erase oldest blocks)) kept =
              total (blockLen blocks) kept :=
            total_congr _ fun key member =>
              others key (by rw [evicts.split]; exact List.mem_append_right _ member)
          refine ⟨oldest :: evicted, kept, left, ?_, weights.cons ?_, fun key => ?_⟩
          · rw [found]
            simp only [difference, Option.bind_some, result, sameKept]
          · rw [← counted]
            exact tight
          · rw [lookups]
            by_cases same : key = oldest
            · subst same
              simp [AList.lookup_erase]
            · simp [same, AList.lookup_erase_ne same]
      · next fits =>
          refine ⟨[], oldest :: rest, blocks, by rw [counted]; rfl, evicts_nothing ?_,
            fun key => rfl⟩
          rw [← counted]
          exact Nat.not_lt.mp fits

theorem mem_kept_iff {order evicted kept : List CacheKey} {blocks left : Dict CacheKey (List UInt8)}
    (listed : ∀ key, key ∈ order ↔ key ∈ blocks) (split : order = evicted ++ kept)
    (apart : ∀ gone ∈ evicted, ∀ held ∈ kept, gone ≠ held)
    (lookups : ∀ key, left.lookup key = if key ∈ evicted then none else blocks.lookup key)
    (key : CacheKey) : key ∈ kept ↔ key ∈ left := by
  rw [← AList.lookup_isSome, lookups]
  split
  · next gone => exact iff_of_false (fun held => apart key gone key held rfl) (by simp)
  · next stays =>
      rw [AList.lookup_isSome, ← listed, split, List.mem_append, or_iff_right stays]

/-- The cache with a block behind those that are kept. -/
theorem Sound.insertBehind {removed : BlockCache} (clean : removed.Sound)
    {evicted kept : List CacheKey} {left : Dict CacheKey (List UInt8)}
    (split : removed.order = evicted ++ kept) (absent : key ∉ kept)
    (lookups : ∀ other, left.lookup other =
      if other ∈ evicted then none else removed.cache.lookup other)
    (fits : total (blockLen removed.cache) kept + data.length ≤ removed.capacityBytes) :
    Sound { removed with
      currentBytes := total (blockLen removed.cache) kept + data.length
      cache := AList.insert key data left
      order := kept ++ [key] } := by
  have distinct := clean.distinct
  rw [split, List.nodup_append] at distinct
  rcases distinct with ⟨_, keptDistinct, apart⟩
  exact
    { distinct := by
        rw [List.nodup_append]
        refine ⟨keptDistinct, List.nodup_singleton key, ?_⟩
        intro other member last isLast same
        rw [List.mem_singleton] at isLast
        exact absent (by rwa [← isLast, ← same])
      listed := fun other => by
        rw [List.mem_append, List.mem_singleton, AList.mem_insert, or_comm,
          mem_kept_iff clean.listed split apart lookups]
      counted := by
        have unchanged : ∀ other ∈ kept,
            blockLen left other = blockLen removed.cache other := by
          intro other member
          rw [blockLen, blockLen, lookups, if_neg fun gone => apart other gone other member rfl]
        dsimp only
        rw [total_insert absent, total_congr _ unchanged]
      bounded := fits }

/-- What an insertion that fits does: the key moves to the end, behind the
shortest front part of the other keys having gone. -/
theorem insert_spec (sound : cache.Sound)
    (small : cache.capacityBytes + cache.capacityBytes < 2 ^ 64) (key : CacheKey)
    (room : data.length ≤ cache.capacityBytes) :
    ∃ evicted kept after,
      cache.insert key data = some after ∧ after.Sound ∧
        after.capacityBytes = cache.capacityBytes ∧
        Evicts (blockLen cache.cache) cache.capacityBytes data.length (cache.order.erase key)
          evicted kept ∧
        after.order = kept ++ [key] ∧
        ∀ other, after.cache.lookup other =
          if other = key then some data
          else if other ∈ evicted then none else cache.cache.lookup other := by
  rcases removeExisting_spec sound key with ⟨removed, result, clean, same, order, lookups⟩
  have fitsCache : data.length ≤ removed.capacityBytes := by rwa [same]
  have smallCache : removed.capacityBytes + removed.capacityBytes < 2 ^ 64 := by rwa [same]
  rcases evictLoop_spec fitsCache smallCache clean.distinct clean.listed clean.counted
      clean.bounded with ⟨evicted, kept, left, evictedResult, evicts, leftLookups⟩
  have absent : key ∉ kept := by
    intro member
    have inOrder : key ∈ removed.order := by
      rw [evicts.split]
      exact List.mem_append_right _ member
    rw [order] at inOrder
    exact (sound.distinct.mem_erase_iff.mp inOrder).1 rfl
  have weights : ∀ other ∈ removed.order,
      blockLen removed.cache other = blockLen cache.cache other := by
    intro other member
    rw [order] at member
    rw [blockLen, blockLen, lookups, if_neg (sound.distinct.mem_erase_iff.mp member).1]
  have sum : checkedAdd (total (blockLen removed.cache) kept) data.length =
      some (total (blockLen removed.cache) kept + data.length) := by
    have fits := evicts.fits
    exact if_pos (by omega)
  refine ⟨evicted, kept, { removed with
    currentBytes := total (blockLen removed.cache) kept + data.length
    cache := AList.insert key data left
    order := kept ++ [key] }, ?_,
    clean.insertBehind evicts.split absent leftLookups evicts.fits, same, ?_, rfl, ?_⟩
  · rw [insert, if_neg (Nat.not_lt.mpr room), result]
    simp only [Option.bind_eq_bind, Option.bind_some, evictedResult, sum]
    rfl
  · have inOther := evicts.congr weights
    rwa [same, order] at inOther
  · intro other
    dsimp only
    rw [Dict.lookup_insert]
    split
    · rfl
    · next different => rw [leftLookups, lookups, if_neg different]

/-! ## Runs -/

/-- The key that a call uses. A block that is dropped is not a use. -/
def usedKey (capacityBytes : Nat) : Call → Option CacheKey
  | .get key => some key
  | .insert key data => if data.length ≤ capacityBytes then some key else none

/-- The cached keys stand in the order of their last use. -/
def InOrder (capacityBytes : Nat) (calls : List Call) (cache : BlockCache) : Prop :=
  cache.order = (byLastUse (calls.filterMap (usedKey capacityBytes))).filter (· ∈ cache.cache)

theorem Sound.get_inOrder {capacity : Nat} {calls : List Call} (sound : cache.Sound)
    (inOrder : InOrder capacity calls cache) (key : CacheKey) :
    InOrder capacity (calls ++ [.get key]) (cache.get key).2 := by
  have used : (calls ++ [Call.get key]).filterMap (usedKey capacity) =
      calls.filterMap (usedKey capacity) ++ [key] := by
    rw [List.filterMap_append]
    rfl
  rw [InOrder, used]
  rcases get_cases cache key with ⟨absent, result⟩ | ⟨present, result⟩ <;> rw [result]
  · rw [filter_byLastUse_concat_of_not absent]
    exact inOrder
  · dsimp only
    rw [filter_byLastUse_concat present, ← inOrder, sound.distinct.erase_eq_filter]
    congr 1
    apply List.filter_congr
    intro other _
    exact Bool.eq_iff_iff.mpr (by simp)

theorem insert_of_large (large : cache.capacityBytes < data.length) :
    cache.insert key data = some cache :=
  if_pos large

theorem inOrder_insert {calls : List Call} {after : BlockCache} {evicted kept : List CacheKey}
    (sound : cache.Sound) (inOrder : InOrder cache.capacityBytes calls cache)
    (room : data.length ≤ cache.capacityBytes) (split : cache.order.erase key = evicted ++ kept)
    (order : after.order = kept ++ [key]) (clean : after.Sound) :
    InOrder cache.capacityBytes (calls ++ [.insert key data]) after := by
  have used : (calls ++ [Call.insert key data]).filterMap (usedKey cache.capacityBytes) =
      calls.filterMap (usedKey cache.capacityBytes) ++ [key] := by
    rw [List.filterMap_append, List.filterMap_cons]
    simp [usedKey, room]
  rw [sound.distinct.erase_eq_filter, inOrder] at split
  have others : ((byLastUse (calls.filterMap (usedKey cache.capacityBytes))).filter
      (· ∈ cache.cache)).filter (· ≠ key) = evicted ++ kept := by
    rw [← split]
    apply List.filter_congr
    intro other _
    exact Bool.eq_iff_iff.mpr (by simp)
  have entered (other : CacheKey) : other ∈ after.cache ↔ other = key ∨ other ∈ kept := by
    rw [← clean.listed, order, List.mem_append, List.mem_singleton, or_comm]
  rw [InOrder, used, order, filter_byLastUse_enter others entered]

/-- Every run goes through, and leaves the deque in the order of last use. -/
theorem attempt_spec {capacity : Nat} (small : capacity + capacity < 2 ^ 64) (calls : List Call) :
    ∃ cache, attempt perform (new capacity) calls = some cache ∧ cache.Sound ∧
      cache.capacityBytes = capacity ∧ InOrder capacity calls cache := by
  induction calls using List.reverseRecOn with
  | nil => exact ⟨new capacity, rfl, sound_new capacity, rfl, rfl⟩
  | append_singleton calls call induction =>
      rcases induction with ⟨cache, reached, sound, rfl, inOrder⟩
      rw [attempt_concat, reached, Option.bind_some]
      cases call with
      | get key =>
          refine ⟨_, rfl, sound.get key, ?_, sound.get_inOrder inOrder key⟩
          rcases get_cases cache key with ⟨_, result⟩ | ⟨_, result⟩ <;> rw [result]
      | insert key data =>
          rcases Nat.lt_or_ge cache.capacityBytes data.length with large | room
          · refine ⟨cache, insert_of_large large, sound, rfl, ?_⟩
            have unused : (calls ++ [Call.insert key data]).filterMap
                (usedKey cache.capacityBytes) = calls.filterMap (usedKey cache.capacityBytes) := by
              rw [List.filterMap_append, List.filterMap_cons]
              simp [usedKey, Nat.not_le.mpr large]
            rw [InOrder, unused]
            exact inOrder
          · rcases insert_spec sound small key room with
              ⟨evicted, kept, after, inserted, clean, same, evicts, order, _⟩
            exact ⟨after, inserted, clean, same,
              inOrder_insert sound inOrder room evicts.split order clean⟩

/-- After every run the counter is the number of cached bytes, within the
capacity, and the deque lists the cached keys in the order of their last use. An
insertion that fits evicts the shortest part from the front that makes room; one
that does not is dropped. -/
theorem lru_invariant (capacity : Nat) (small : capacity + capacity < 2 ^ 64)
    (calls : List Call) :
    ∃ cache, attempt perform (new capacity) calls = some cache ∧
      cache.currentBytes = cachedBytes cache.cache ∧
      cache.currentBytes ≤ capacity ∧
      cache.order.Nodup ∧
      (∀ key, key ∈ cache.order ↔ key ∈ cache.cache) ∧
      cache.order =
        (byLastUse (calls.filterMap (usedKey capacity))).filter (· ∈ cache.cache) ∧
      ∀ key data,
        (capacity < data.length → cache.insert key data = some cache) ∧
        (data.length ≤ capacity → ∃ evicted kept after,
          cache.insert key data = some after ∧
            Evicts (blockLen cache.cache) capacity data.length (cache.order.erase key) evicted
              kept ∧
            after.order = kept ++ [key] ∧
            ∀ other, after.cache.lookup other =
              if other = key then some data
              else if other ∈ evicted then none else cache.cache.lookup other) := by
  rcases attempt_spec small calls with ⟨cache, reached, sound, rfl, inOrder⟩
  refine ⟨cache, reached, ?_, sound.bounded, sound.distinct, sound.listed, inOrder,
    fun key data => ⟨insert_of_large, fun room => ?_⟩⟩
  · rw [sound.counted, cachedBytes_eq sound.distinct sound.listed]
  · rcases insert_spec sound small key room with
      ⟨evicted, kept, after, inserted, _, _, evicts, order, lookups⟩
    exact ⟨evicted, kept, after, inserted, evicts, order, lookups⟩

/-- Two blocks of 60 bytes do not fit into 100 bytes: the first one goes. -/
theorem lru_invariant_evicting :
    ∃ cache, attempt perform (new 100)
        [.insert ⟨"sst", 0⟩ (List.replicate 60 0), .insert ⟨"sst", 100⟩ (List.replicate 60 1)] =
          some cache ∧
      cache.order = [⟨"sst", 100⟩] := by
  rcases lru_invariant 100 (by decide)
      [.insert ⟨"sst", 0⟩ (List.replicate 60 0), .insert ⟨"sst", 100⟩ (List.replicate 60 1)] with
    ⟨cache, reached, _⟩
  refine ⟨cache, reached, ?_⟩
  have order : (attempt perform (new 100) [.insert ⟨"sst", 0⟩ (List.replicate 60 0),
      .insert ⟨"sst", 100⟩ (List.replicate 60 1)]).map BlockCache.order = some [⟨"sst", 100⟩] := by
    decide
  rw [reached] at order
  exact Option.some.inj order

end BlockCache

end FunDB.Storage
