import FunDB.Foundation.FallibleRuns
import FunDB.Indexes.HnswInvariant

/-! # Calls of the HNSW index

Runs in which stored nodes may be inserted again. Every call returns, and the number
of live nodes is never below their count. -/

namespace FunDB.Hnsw

open FallibleRuns

variable {Coord Distance Recall : Type} [LinearOrder Distance]

inductive IndexCall (Coord : Type) where
  | insert (id : Uuid) (vector : List Coord)
  | delete (id : Uuid)
  | compact (order : KeyOrder)

def HnswIndex.perform (numbers : Numbers Coord Distance Recall) (index : HnswIndex Coord) :
    IndexCall Coord → Option (HnswIndex Coord)
  | .insert id vector => (index.insert numbers id vector).map Prod.snd
  | .delete id => some (index.delete id).2
  | .compact order => some (index.compact order)

variable {numbers : Numbers Coord Distance Recall} {index after : HnswIndex Coord}

/-! ## Links -/

/-- The result is the index with other lists in as many layers. -/
def Relinks (index : HnswIndex Coord) (result : Option (HnswIndex Coord)) : Prop :=
  ∃ layers, result = some { index with layers := layers } ∧
    layers.length = index.layers.length ∧ Owned { index with layers := layers }

section Links

variable {id : Uuid} {layer : Nat}

theorem relinks_connect {neighbour : Uuid} (owned : Owned index)
    (inRange : layer < index.layers.length) (isStored : id ∈ index.vectors)
    (neighbourStored : neighbour ∈ index.vectors) :
    Relinks index (index.connect numbers id layer neighbour) := by
  have isLayer : index.layers[layer]? = some index.layers[layer] :=
    List.getElem?_eq_getElem inRange
  rcases Option.isSome_iff_exists.mp (AList.lookup_isSome.mpr neighbourStored) with ⟨vector, found⟩
  let linked := index.linkLists numbers id (index.mMax layer) neighbour vector index.layers[layer]
  refine ⟨index.layers.set layer linked, ?_, List.length_set, ?_⟩
  · rw [HnswIndex.connect, isLayer, found]
    rfl
  · intro place lists isPlace node isIn
    by_cases same : layer = place
    · subst same
      cases (List.getElem?_set_self inRange).symm.trans isPlace
      rcases mem_linkLists numbers index vector _ isIn with rfl | rfl | old
      · exact neighbourStored
      · exact isStored
      · exact owned layer _ isLayer node old
    · dsimp only at isPlace
      rw [List.getElem?_set_ne same] at isPlace
      exact owned place lists isPlace node isIn

theorem relinks_connects {neighbours : List (Item Distance)} (owned : Owned index)
    (inRange : layer < index.layers.length) (isStored : id ∈ index.vectors)
    (allStored : ∀ item ∈ neighbours, item.id ∈ index.vectors) :
    Relinks index (neighbours.foldlM (fun index neighbour =>
      index.connect numbers id layer neighbour.id) index) := by
  induction neighbours generalizing index with
  | nil => exact ⟨index.layers, rfl, rfl, owned⟩
  | cons neighbour neighbours induction =>
      have first : Relinks index (index.connect numbers id layer neighbour.id) :=
        relinks_connect owned inRange isStored (allStored neighbour List.mem_cons_self)
      rcases first with ⟨layers, ran, length, ownedAfter⟩
      have rest : Relinks { index with layers := layers } _ :=
        induction ownedAfter (length ▸ inRange) isStored
          fun item isIn => allStored item (List.mem_cons_of_mem _ isIn)
      rcases rest with ⟨last, ranRest, lengthRest, ownedLast⟩
      refine ⟨last, ?_, lengthRest.trans length, ownedLast⟩
      rw [List.foldlM_cons, ran]
      exact ranRest

theorem relinks_linkLayers {vector : List Coord} {count : Nat} {entries : List (Item Distance)}
    (owned : Owned index) (inRange : count ≤ index.layers.length) (isStored : id ∈ index.vectors)
    (allStored : ∀ item ∈ entries, item.id ∈ index.vectors) :
    Relinks index (HnswIndex.linkLayers numbers id vector count entries index) := by
  induction count generalizing index entries with
  | zero => exact ⟨index.layers, rfl, rfl, owned⟩
  | succ layer induction =>
      have isLayer : index.layers[layer]? = some index.layers[layer] :=
        List.getElem?_eq_getElem inRange
      have found : ∃ items, index.searchLayer numbers vector entries index.efConstruction layer =
          some items ∧ (items.map Item.id).Nodup ∧ ∀ item ∈ items, item.id ∈ index.vectors :=
        searchLayer_spec isLayer (fun _ _ _ isStored => isStored) allStored
      rcases found with ⟨items, searched, -, itemsStored⟩
      have connected : Relinks index ((items.take index.m).foldlM (fun index neighbour =>
          index.connect numbers id layer neighbour.id) index) :=
        relinks_connects owned inRange isStored
          fun item isIn => itemsStored item (List.mem_of_mem_take isIn)
      rcases connected with ⟨layers, ran, length, ownedAfter⟩
      have rest : Relinks { index with layers := layers }
          (HnswIndex.linkLayers numbers id vector layer items { index with layers := layers }) := by
        apply induction ownedAfter _ isStored itemsStored
        dsimp only
        omega
      rcases rest with ⟨last, ranRest, lengthRest, ownedLast⟩
      refine ⟨last, ?_, lengthRest.trans length, ownedLast⟩
      rw [HnswIndex.linkLayers, searched]
      dsimp only [Option.bind_eq_bind, Option.bind_some]
      rw [ran]
      exact ranRest

theorem relinks_linkFrom {vector : List Coord} {entry : Uuid} {nodeLayer entryLayer : Nat}
    (owned : Owned index) (nodeInRange : nodeLayer < index.layers.length)
    (entryInRange : entryLayer < index.layers.length) (isStored : id ∈ index.vectors)
    (entryStored : entry ∈ index.vectors) :
    Relinks index (index.linkFrom numbers id vector nodeLayer entry entryLayer) := by
  have closed : ∀ lists, Closed index (· ∈ index.vectors) lists := fun _ _ _ _ isStored => isStored
  have descended : ∃ found, index.descend numbers vector entry entryLayer (nodeLayer + 1) =
      some found ∧ found ∈ index.vectors ∧ found ∈ index.vectors :=
    descend_spec entryInRange (fun _ lists _ _ => closed lists) entryStored entryStored
  rcases descended with ⟨found, ran, foundStored, -⟩
  rcases Option.isSome_iff_exists.mp (AList.lookup_isSome.mpr foundStored) with
    ⟨foundVector, isVector⟩
  rw [HnswIndex.linkFrom, ran]
  dsimp only [Option.bind_eq_bind, Option.bind_some]
  rw [isVector]
  apply relinks_linkLayers owned nodeInRange isStored
  intro item isIn
  rw [List.mem_singleton.mp isIn]
  exact foundStored

end Links

/-! ## Calls -/

def liveNodes (index : HnswIndex Coord) : List Uuid :=
  index.vectors.keys.filter (· ∉ index.tombstones)

theorem mem_liveNodes_iff {id : Uuid} : id ∈ liveNodes index ↔ Live index id := by
  rw [liveNodes, List.mem_filter, decide_eq_true_eq, ← AList.mem_keys, Live]

theorem nodup_liveNodes (index : HnswIndex Coord) : (liveNodes index).Nodup :=
  index.vectors.keys_nodup.filter _

theorem liveNodes_perm (same : ∀ id, Live after id ↔ Live index id) :
    (liveNodes after).Perm (liveNodes index) := by
  apply (List.perm_ext_iff_of_nodup (nodup_liveNodes after) (nodup_liveNodes index)).mpr
  intro id
  rw [mem_liveNodes_iff, mem_liveNodes_iff, same]

/-- One index has one more live node than the other. -/
theorem liveNodes_perm_cons {id : Uuid} (dead : ¬Live index id)
    (more : ∀ other, Live after other ↔ other = id ∨ Live index other) :
    (liveNodes after).Perm (id :: liveNodes index) := by
  have new : id ∉ liveNodes index := fun isIn => dead (mem_liveNodes_iff.mp isIn)
  have distinct : (id :: liveNodes index).Nodup := List.nodup_cons.mpr ⟨new, nodup_liveNodes index⟩
  apply (List.perm_ext_iff_of_nodup (nodup_liveNodes after) distinct).mpr
  intro other
  rw [mem_liveNodes_iff, more, List.mem_cons, mem_liveNodes_iff]

/-- What holds of the index after all calls. -/
structure Ready (index : HnswIndex Coord) : Prop where
  owned : Owned index
  entry : ∀ node layer, index.entryPoint = some (node, layer) →
    node ∈ index.vectors ∧ layer < index.layers.length
  buried : ∀ id ∈ index.tombstones, id ∈ index.vectors
  counted : (liveNodes index).length ≤ index.liveCount

/-- What an insertion does to the nodes and their count. -/
structure Inserted (index after : HnswIndex Coord) (id : Uuid) (vector : List Coord) : Prop where
  dims : after.dims = index.dims
  vectors : after.vectors = index.vectors.insert id vector
  tombstones : after.tombstones = index.tombstones
  liveCount : after.liveCount = index.liveCount + 1
  owned : Owned after
  entry : ∀ node layer, after.entryPoint = some (node, layer) →
    node ∈ after.vectors ∧ layer < after.layers.length

theorem owned_store (owned : Owned index) (id : Uuid) (vector : List Coord) (nodeLayer : Nat) :
    Owned (index.store id vector nodeLayer) := by
  intro place lists isLayer node isIn
  rcases layer_of_store isLayer with ⟨old, isOld, isAfter⟩
  have oldStored (isInOld : node ∈ old) : node ∈ index.vectors.insert id vector := by
    rcases isOld with isOld | rfl
    · exact (AList.mem_insert _).mpr (.inr (owned place old isOld node isInOld))
    · exact absurd isInOld (AList.notMem_empty node)
  rcases isAfter with rfl | rfl
  · exact oldStored isIn
  · rcases mem_touch old id node isIn with rfl | isInOld
    · exact (AList.mem_insert _).mpr (.inl rfl)
    · exact oldStored isInOld

/-- Every insertion returns. It changes nothing if the vector has the wrong length. -/
theorem insert_cases (numbers : Numbers Coord Distance Recall) (ready : Ready index) (id : Uuid)
    (vector : List Coord) :
    ∃ outcome after, index.insert numbers id vector = some (outcome, after) ∧
      (vector.length ≠ index.dims ∧ after = index ∨
        vector.length = index.dims ∧ Inserted index after id vector) := by
  rw [HnswIndex.insert]
  split
  · next mismatch => exact ⟨_, _, rfl, .inl ⟨mismatch, rfl⟩⟩
  · next matching =>
      generalize numbers.randomLayer index.m id = nodeLayer
      have sameLength : vector.length = index.dims := Decidable.not_not.mp matching
      have owned : Owned (index.store id vector nodeLayer) := owned_store ready.owned id vector _
      have length := length_layers_store index id vector nodeLayer
      have own : id ∈ index.vectors.insert id vector := (AList.mem_insert _).mpr (.inl rfl)
      dsimp only
      rw [show (index.store id vector nodeLayer).entryPoint = index.entryPoint from rfl]
      cases isEntry : index.entryPoint with
      | none =>
          refine ⟨_, _, rfl, .inr ⟨sameLength, rfl, rfl, rfl, rfl, owned, ?_⟩⟩
          intro node layer isNew
          cases isNew
          exact ⟨own, by dsimp only; omega⟩
      | some entryPoint =>
          rcases entryPoint with ⟨entry, entryLayer⟩
          rcases ready.entry entry entryLayer isEntry with ⟨entryStored, inRange⟩
          have kept : entry ∈ index.vectors.insert id vector :=
            (AList.mem_insert _).mpr (.inr entryStored)
          have linked : Relinks (index.store id vector nodeLayer)
              ((index.store id vector nodeLayer).linkFrom numbers id vector nodeLayer entry
                entryLayer) :=
            relinks_linkFrom owned (by omega) (by omega) own kept
          rcases linked with ⟨layers, ran, sameLayers, ownedAfter⟩
          dsimp only
          rw [ran]
          refine ⟨_, _, rfl, .inr ⟨sameLength, ?_⟩⟩
          split
          · refine ⟨rfl, rfl, rfl, rfl, ownedAfter, fun node layer isNode => ?_⟩
            cases isNode
            exact ⟨own, by dsimp only; omega⟩
          · refine ⟨rfl, rfl, rfl, rfl, ownedAfter, fun node layer isNode => ?_⟩
            cases isEntry.symm.trans isNode
            exact ⟨kept, by dsimp only; omega⟩

omit [LinearOrder Distance] in
theorem ready_new (dims m efConstruction : Nat) :
    Ready (HnswIndex.new dims m efConstruction : HnswIndex Coord) where
  owned _ _ isLayer := nomatch isLayer
  entry _ _ isEntry := nomatch isEntry
  buried _ isIn := nomatch isIn
  counted := Nat.le_refl 0

theorem live_insert_iff {id other : Uuid} {vector : List Coord}
    (inserted : Inserted index after id vector) :
    Live after other ↔ other = id ∧ id ∉ index.tombstones ∨ Live index other := by
  rw [Live, Live, inserted.vectors, inserted.tombstones, AList.mem_insert]
  constructor
  · rintro ⟨rfl | old, alive⟩
    · exact .inl ⟨rfl, alive⟩
    · exact .inr ⟨old, alive⟩
  · rintro (⟨rfl, alive⟩ | ⟨old, alive⟩)
    · exact ⟨.inl rfl, alive⟩
    · exact ⟨.inr old, alive⟩

/-- Storing a node again leaves the live nodes as they are. -/
theorem liveNodes_insert_stored {id : Uuid} {vector : List Coord} (stored : id ∈ index.vectors)
    (inserted : Inserted index after id vector) : (liveNodes after).Perm (liveNodes index) := by
  apply liveNodes_perm
  intro other
  rw [live_insert_iff inserted]
  apply or_iff_right_of_imp
  rintro ⟨rfl, alive⟩
  exact ⟨stored, alive⟩

theorem liveNodes_insert_new (ready : Ready index) {id : Uuid} {vector : List Coord}
    (new : id ∉ index.vectors) (inserted : Inserted index after id vector) :
    (liveNodes after).Perm (id :: liveNodes index) := by
  apply liveNodes_perm_cons fun live => new live.1
  intro other
  rw [live_insert_iff inserted]
  have alive : id ∉ index.tombstones := fun dead => new (ready.buried id dead)
  simp only [alive, not_false_eq_true, and_true]

theorem ready_insert (ready : Ready index) {id : Uuid} {vector : List Coord}
    (inserted : Inserted index after id vector) : Ready after where
  owned := inserted.owned
  entry := inserted.entry
  buried dead isDead := by
    rw [inserted.tombstones] at isDead
    rw [inserted.vectors]
    exact (AList.mem_insert _).mpr (.inr (ready.buried dead isDead))
  counted := by
    have before := ready.counted
    rw [inserted.liveCount]
    by_cases stored : id ∈ index.vectors
    · rw [(liveNodes_insert_stored stored inserted).length_eq]
      exact before.trans (Nat.le_succ _)
    · rw [(liveNodes_insert_new ready stored inserted).length_eq]
      exact Nat.succ_le_succ before

/-- What a deletion does: nothing to a node that is unknown or deleted already. -/
theorem delete_cases (index : HnswIndex Coord) (id : Uuid) :
    (id ∉ index.vectors ∨ id ∈ index.tombstones) ∧ (index.delete id).2 = index ∨
      id ∈ index.vectors ∧ id ∉ index.tombstones ∧
        (index.delete id).2 = { index with
          tombstones := id :: index.tombstones
          liveCount := index.liveCount - 1 } := by
  unfold HnswIndex.delete
  split
  · next unknown => exact .inl ⟨.inl unknown, rfl⟩
  · next known =>
      split
      · next dead => exact .inl ⟨.inr dead, rfl⟩
      · next alive => exact .inr ⟨Decidable.not_not.mp known, alive, rfl⟩

omit [LinearOrder Distance] in
/-- The deletion of a live node takes it from the live nodes. -/
theorem liveNodes_delete {id : Uuid} (known : id ∈ index.vectors) (alive : id ∉ index.tombstones)
    (buried : after.vectors = index.vectors ∧ after.tombstones = id :: index.tombstones) :
    (liveNodes index).Perm (id :: liveNodes after) := by
  have isLive (other : Uuid) : Live after other ↔ other ∈ index.vectors ∧
      other ∉ id :: index.tombstones := by
    rw [Live, buried.1, buried.2]
  apply liveNodes_perm_cons
  · exact fun live => ((isLive id).mp live).2 List.mem_cons_self
  · intro other
    rw [isLive, Live, List.mem_cons, not_or]
    by_cases same : other = id
    · simp [same, known, alive]
    · simp [same]

theorem ready_delete (ready : Ready index) (id : Uuid) : Ready (index.delete id).2 := by
  rcases delete_cases index id with ⟨-, same⟩ | ⟨known, alive, deleted⟩
  · exact same.symm ▸ ready
  · have fewer : (liveNodes index).Perm (id :: liveNodes (index.delete id).2) := by
      apply liveNodes_delete known alive
      rw [deleted]
      exact ⟨rfl, rfl⟩
    have before := ready.counted
    rw [fewer.length_eq, List.length_cons] at before
    rw [deleted] at before ⊢
    refine ⟨ready.owned, ready.entry, ?_, Nat.le_sub_one_of_lt before⟩
    intro dead isDead
    rcases List.mem_cons.mp isDead with rfl | old
    · exact known
    · exact ready.buried dead old

omit [LinearOrder Distance] in
theorem compact_counts (index : HnswIndex Coord) (order : KeyOrder) :
    (index.compact order).liveCount = index.liveCount ∧
      (index.compact order).dims = index.dims ∧ (index.compact order).tombstones = [] := by
  unfold HnswIndex.compact
  split
  · next none => exact ⟨rfl, rfl, none⟩
  · exact ⟨rfl, rfl, rfl⟩

theorem ready_compact (ready : Ready index) (order : KeyOrder) : Ready (index.compact order) := by
  rcases compact_counts index order with ⟨sameCount, -, none⟩
  have counted : (liveNodes (index.compact order)).length ≤ (index.compact order).liveCount := by
    rw [(liveNodes_perm live_compact_iff).length_eq, sameCount]
    exact ready.counted
  have buried : ∀ id ∈ (index.compact order).tombstones, id ∈ (index.compact order).vectors := by
    intro id isDead
    rw [none] at isDead
    cases isDead
  exact ⟨owned_compact ready.owned order,
    fun _ _ => entry_compact ready.owned ready.entry order, buried, counted⟩

/-! ## Runs -/

/-- Every call returns and leads to such a state again. -/
theorem ready_perform (numbers : Numbers Coord Distance Recall) (ready : Ready index)
    (call : IndexCall Coord) :
    ∃ after, index.perform numbers call = some after ∧ Ready after := by
  cases call with
  | insert id vector =>
      rcases insert_cases numbers ready id vector with ⟨outcome, after, ran, changed⟩
      refine ⟨after, by rw [HnswIndex.perform, ran]; rfl, ?_⟩
      rcases changed with ⟨-, rfl⟩ | ⟨-, inserted⟩
      · exact ready
      · exact ready_insert ready inserted
  | delete id => exact ⟨_, rfl, ready_delete ready id⟩
  | compact order => exact ⟨_, rfl, ready_compact ready order⟩

theorem exists_run (numbers : Numbers Coord Distance Recall) (dims m efConstruction : Nat)
    (calls : List (IndexCall Coord)) :
    ∃ index, attempt (HnswIndex.perform numbers) (.new dims m efConstruction) calls = some index ∧
      Ready index :=
  exists_attempt_of_invariant _ (ready_new dims m efConstruction)
    fun _ call ready => ready_perform numbers ready call

theorem isSome_run (numbers : Numbers Coord Distance Recall) (dims m efConstruction : Nat)
    (calls : List (IndexCall Coord)) :
    (attempt (HnswIndex.perform numbers) (.new dims m efConstruction) calls).isSome := by
  rcases exists_run numbers dims m efConstruction calls with ⟨index, ran, -⟩
  rw [ran]
  rfl

theorem ready_of_run {dims m efConstruction : Nat} {calls : List (IndexCall Coord)}
    (ran : attempt (HnswIndex.perform numbers) (.new dims m efConstruction) calls = some index) :
    Ready index := by
  rcases exists_run numbers dims m efConstruction calls with ⟨reached, same, ready⟩
  cases same.symm.trans ran
  exact ready

end FunDB.Hnsw
