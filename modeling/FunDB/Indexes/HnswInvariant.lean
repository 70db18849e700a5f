import FunDB.Indexes.HnswLinks
import Mathlib.Algebra.Order.Group.Int

/-! # The states of the HNSW index

What every operation keeps, and that no insertion and no search panics. -/

namespace FunDB.Hnsw

open GraphSearch

variable {Coord Distance Recall : Type} [LinearOrder Distance]
variable {numbers : Numbers Coord Distance Recall} {index : HnswIndex Coord}

/-! ## Insertion -/

/-- The lists are sound, and the entry point is a stored node in a layer that
exists. -/
structure Sound (index : HnswIndex Coord) : Prop where
  layers : LayersSound index
  entry : ∀ node layer, index.entryPoint = some (node, layer) →
    node ∈ index.vectors ∧ layer < index.layers.length

omit [LinearOrder Distance] in
theorem sound_new (dims m efConstruction : Nat) :
    Sound (HnswIndex.new dims m efConstruction : HnswIndex Coord) where
  layers _ _ isLayer := nomatch isLayer
  entry _ _ isEntry := nomatch isEntry

section Store

variable {id : Uuid} {vector : List Coord} {nodeLayer : Nat}

theorem layer_of_store {place : Nat} {lists : Layer}
    (isLayer : (index.store id vector nodeLayer).layers[place]? = some lists) :
    ∃ old, (index.layers[place]? = some old ∨ old = ∅) ∧ (lists = old ∨ lists = old.touch id) := by
  rw [HnswIndex.store, List.getElem?_mapIdx] at isLayer
  rcases Option.map_eq_some_iff.mp isLayer with ⟨old, isOld, rfl⟩
  refine ⟨old, ?_, ?_⟩
  · by_cases inRange : place < index.layers.length
    · rw [List.getElem?_append_left inRange] at isOld
      exact .inl isOld
    · rw [List.getElem?_append_right (Nat.le_of_not_lt inRange)] at isOld
      exact .inr (List.eq_of_mem_replicate (List.mem_of_getElem? isOld))
  · split
    · exact .inr rfl
    · exact .inl rfl

theorem length_layers_store (index : HnswIndex Coord) (id : Uuid) (vector : List Coord)
    (nodeLayer : Nat) :
    (index.store id vector nodeLayer).layers.length = max index.layers.length (nodeLayer + 1) := by
  rw [HnswIndex.store, List.length_mapIdx, List.length_append, List.length_replicate]
  omega

theorem layersSound_store (sound : LayersSound index) :
    LayersSound (index.store id vector nodeLayer) := by
  intro place lists isLayer
  have stored : ∀ node ∈ index.vectors, node ∈ (index.store id vector nodeLayer).vectors :=
    fun node isIn => (AList.mem_insert _).mpr (.inr isIn)
  have own : id ∈ (index.store id vector nodeLayer).vectors := (AList.mem_insert _).mpr (.inl rfl)
  rcases layer_of_store isLayer with ⟨old, isOld, cases⟩
  have soundOld : LayerSound (· ∈ (index.store id vector nodeLayer).vectors)
      (limit index.m place) old := by
    rcases isOld with isOld | rfl
    · exact (sound place old isOld).mono stored
    · exact layerSound_empty
  rcases cases with rfl | rfl
  · exact soundOld
  · exact soundOld.touch own

theorem linked_store (sound : LayersSound index) (new : id ∉ index.vectors) {place : Nat}
    {lists : Layer} (isLayer : (index.store id vector nodeLayer).layers[place]? = some lists) :
    Linked id [] lists := by
  rcases layer_of_store isLayer with ⟨old, isOld, cases⟩
  have buckets : ∀ node, lists.bucket node = old.bucket node := by
    rcases cases with rfl | rfl
    · exact fun _ => rfl
    · exact bucket_touch old id
  have soundOld : LayerSound (· ∈ index.vectors) (limit index.m place) old := by
    rcases isOld with isOld | rfl
    · exact sound place old isOld
    · exact layerSound_empty
  constructor
  · rw [buckets]
    exact Buckets.bucket_eq_nil _ _ fun owner => new (soundOld.owners id (AList.mem_keys.mpr owner))
  · intro node isIn
    rw [buckets] at isIn
    exact absurd (soundOld.listed node id isIn) new

end Store

theorem linkFrom_spec {id entry : Uuid} {nodeLayer entryLayer : Nat} (vector : List Coord)
    (sound : LayersSound index) (isStored : id ∈ index.vectors)
    (unlinked : ∀ (place : Nat) (lists : Layer), index.layers[place]? = some lists →
      Linked id [] lists)
    (nodeInRange : nodeLayer < index.layers.length)
    (entryInRange : entryLayer < index.layers.length) (entryStored : entry ∈ index.vectors)
    (different : entry ≠ id) :
    ∃ layers, index.linkFrom numbers id vector nodeLayer entry entryLayer =
        some { index with layers := layers } ∧
      layers.length = index.layers.length ∧ LayersSound { index with layers := layers } := by
  have closed : ∀ place lists, nodeLayer + 1 ≤ place → index.layers[place]? = some lists →
      Closed index (fun node => node ∈ index.vectors ∧ node ≠ id) lists := by
    intro place lists _ isLayer node other isIn otherStored
    refine ⟨otherStored, ?_⟩
    rintro rfl
    cases (unlinked place lists isLayer).others node isIn
  have descended : ∃ found, index.descend numbers vector entry entryLayer (nodeLayer + 1) =
      some found ∧ (found ∈ index.vectors ∧ found ≠ id) ∧ found ∈ index.vectors :=
    descend_spec entryInRange closed ⟨entryStored, different⟩ entryStored
  rcases descended with ⟨found, ran, inside, foundStored⟩
  rcases Option.isSome_iff_exists.mp (AList.lookup_isSome.mpr foundStored) with
    ⟨foundVector, isVector⟩
  rw [HnswIndex.linkFrom, ran]
  dsimp only [Option.bind_eq_bind, Option.bind_some]
  rw [isVector]
  dsimp only [Option.bind_some]
  apply linkLayers_spec sound isStored nodeInRange
  · exact fun place _ => unlinked place
  · intro item isIn
    rw [List.mem_singleton.mp isIn]
    exact inside

/-- An insertion of a node that is not stored does not panic. -/
theorem insert_spec (numbers : Numbers Coord Distance Recall) (sound : Sound index) {id : Uuid}
    (new : id ∉ index.vectors) (vector : List Coord) :
    ∃ outcome after, index.insert numbers id vector = some (outcome, after) ∧ Sound after := by
  rw [HnswIndex.insert]
  split
  · exact ⟨_, _, rfl, sound⟩
  · generalize numbers.randomLayer index.m id = nodeLayer
    have stored : LayersSound (index.store id vector nodeLayer) := layersSound_store sound.layers
    have length := length_layers_store index id vector nodeLayer
    have own : id ∈ (index.store id vector nodeLayer).vectors := (AList.mem_insert _).mpr (.inl rfl)
    have kept : ∀ node ∈ index.vectors, node ∈ (index.store id vector nodeLayer).vectors :=
      fun node isIn => (AList.mem_insert _).mpr (.inr isIn)
    have sameEntry : (index.store id vector nodeLayer).entryPoint = index.entryPoint := rfl
    dsimp only
    rw [sameEntry]
    cases isEntry : index.entryPoint with
    | none =>
        refine ⟨_, _, rfl, stored, ?_⟩
        intro node layer isNew
        cases isNew
        exact ⟨own, by dsimp only; omega⟩
    | some entryPoint =>
        rcases entryPoint with ⟨entry, entryLayer⟩
        rcases sound.entry entry entryLayer isEntry with ⟨entryStored, inRange⟩
        have linked : ∃ layers, (index.store id vector nodeLayer).linkFrom numbers id vector
            nodeLayer entry entryLayer =
              some { index.store id vector nodeLayer with layers := layers } ∧
            layers.length = (index.store id vector nodeLayer).layers.length ∧
            LayersSound { index.store id vector nodeLayer with layers := layers } :=
          linkFrom_spec vector stored own (fun _ _ => linked_store sound.layers new) (by omega)
            (by omega) (kept entry entryStored) (fun same => new (same ▸ entryStored))
        rcases linked with ⟨layers, ran, sameLength, soundLayers⟩
        dsimp only
        rw [ran]
        refine ⟨_, _, rfl, ?_⟩
        split
        · refine ⟨soundLayers, fun node layer isNode => ?_⟩
          cases isNode
          exact ⟨own, by dsimp only; omega⟩
        · refine ⟨soundLayers, fun node layer isNode => ?_⟩
          cases isEntry.symm.trans isNode
          exact ⟨kept _ entryStored, by dsimp only; omega⟩

/-! ## Deletion -/

omit [LinearOrder Distance] in
theorem sound_delete (sound : Sound index) (id : Uuid) : Sound (index.delete id).2 := by
  unfold HnswIndex.delete
  split
  · exact sound
  · split
    · exact sound
    · exact ⟨sound.layers, sound.entry⟩

theorem bucket_purge (lists : Layer) (dead : List Uuid) (node : Uuid) :
    Buckets.bucket (lists.purge dead) node =
      if node ∈ dead then [] else (lists.bucket node).filter (· ∉ dead) := by
  rw [Layer.purge, Buckets.bucket_retain, Buckets.bucket_eraseAll]
  split
  · rfl
  · rfl

theorem mem_purge_iff (lists : Layer) (dead : List Uuid) (node : Uuid) :
    node ∈ lists.purge dead ↔ node ∈ lists ∧ node ∉ dead := by
  rw [Layer.purge, Buckets.mem_retain_iff, Dict.mem_eraseAll_iff]

theorem LayerSound.purge {stored : Uuid → Prop} {limit : Nat} {lists : Layer}
    (sound : LayerSound stored limit lists) (dead : List Uuid) :
    LayerSound (fun node => stored node ∧ node ∉ dead) limit (lists.purge dead) := by
  have fewer : ∀ node, (Buckets.bucket (lists.purge dead) node).Sublist (lists.bucket node) := by
    intro node
    rw [bucket_purge]
    split
    · exact List.nil_sublist _
    · exact List.filter_sublist
  constructor
  · exact fun node => (sound.nodup node).sublist (fewer node)
  · exact fun node isIn => sound.other node ((fewer node).subset isIn)
  · exact fun node => (fewer node).length_le.trans (sound.bounded node)
  · intro node neighbour isIn
    refine ⟨sound.listed node neighbour ((fewer node).subset isIn), ?_⟩
    rw [bucket_purge] at isIn
    split at isIn
    · cases isIn
    · simpa using List.of_mem_filter isIn
  · intro node isIn
    rcases (mem_purge_iff lists dead node).mp isIn with ⟨old, alive⟩
    exact ⟨sound.owners node old, alive⟩

theorem mem_of_survivor {order : KeyOrder} {layers : List Layer} {id : Uuid} {layer : Nat}
    (found : HnswIndex.survivor order layers = some (id, layer)) :
    ∃ lists, layers[layer]? = some lists ∧ id ∈ lists := by
  rcases List.exists_of_findSome?_eq_some found with ⟨place, isPlace, isFirst⟩
  rcases Option.map_eq_some_iff.mp isFirst with ⟨first, isHead, same⟩
  cases same
  refine ⟨place.1, List.mem_zipIdx_iff_getElem?.mp (List.mem_reverse.mp isPlace), ?_⟩
  apply AList.mem_keys.mpr
  exact (order.perm _).subset (List.mem_of_mem_head? isHead)

/-- Every node of a layer is stored. -/
def Owned (index : HnswIndex Coord) : Prop :=
  ∀ (place : Nat) (lists : Layer), index.layers[place]? = some lists →
    ∀ node ∈ lists, node ∈ index.vectors

theorem Sound.owned (sound : Sound index) : Owned index :=
  fun place lists isLayer => (sound.layers place lists isLayer).owners

theorem owned_compact (owned : Owned index) (order : KeyOrder) : Owned (index.compact order) := by
  unfold HnswIndex.compact
  split
  · exact owned
  · intro place lists isLayer node isIn
    dsimp only at isLayer ⊢
    rw [List.getElem?_map] at isLayer
    rcases Option.map_eq_some_iff.mp isLayer with ⟨old, isOld, rfl⟩
    rcases (mem_purge_iff old index.tombstones node).mp isIn with ⟨wasIn, alive⟩
    exact (Dict.mem_eraseAll_iff _ _ node).mpr ⟨owned place old isOld node wasIn, alive⟩

/-- The entry point after compaction is the old one or a node of a layer. -/
theorem entry_compact (owned : Owned index)
    (inRange : ∀ node layer, index.entryPoint = some (node, layer) →
      node ∈ index.vectors ∧ layer < index.layers.length)
    (order : KeyOrder) {node : Uuid} {layer : Nat}
    (isEntry : (index.compact order).entryPoint = some (node, layer)) :
    node ∈ (index.compact order).vectors ∧ layer < (index.compact order).layers.length := by
  have ownedAfter := owned_compact owned order
  unfold HnswIndex.compact at isEntry ownedAfter ⊢
  split at isEntry
  · next none =>
      rw [if_pos none]
      exact inRange node layer isEntry
  · next some =>
      rw [if_neg some] at ownedAfter ⊢
      dsimp only at isEntry ⊢
      split at isEntry
      · cases isEntry
      · next entry entryLayer wasEntry =>
          split at isEntry
          · rcases mem_of_survivor isEntry with ⟨lists, isLayer, owner⟩
            exact ⟨ownedAfter layer lists isLayer node owner,
              (List.getElem?_eq_some_iff.mp isLayer).1⟩
          · next alive =>
              cases isEntry
              rcases inRange _ _ wasEntry with ⟨stored, below⟩
              rw [List.length_map]
              exact ⟨(Dict.mem_eraseAll_iff _ _ _).mpr ⟨stored, alive⟩, below⟩

theorem sound_compact (sound : Sound index) (order : KeyOrder) : Sound (index.compact order) := by
  constructor
  · unfold HnswIndex.compact
    split
    · exact sound.layers
    · intro place lists isLayer
      rw [List.getElem?_map] at isLayer
      rcases Option.map_eq_some_iff.mp isLayer with ⟨old, isOld, rfl⟩
      apply ((sound.layers place old isOld).purge index.tombstones).mono
      exact fun node alive => (Dict.mem_eraseAll_iff _ _ node).mpr alive
  · intro node layer isEntry
    exact entry_compact sound.owned sound.entry order isEntry

/-! ## Live nodes -/

/-- The neighbours of a node in the lowest layer. -/
def neighbours (index : HnswIndex Coord) (node : Uuid) : List Uuid :=
  Buckets.bucket (index.layers.headD ∅) node

def Live (index : HnswIndex Coord) (node : Uuid) : Prop :=
  node ∈ index.vectors ∧ node ∉ index.tombstones

/-- The node can be reached from the entry point in the lowest layer. -/
def Findable (index : HnswIndex Coord) (node : Uuid) : Prop :=
  ∃ entry layer, index.entryPoint = some (entry, layer) ∧ Reaches (neighbours index) entry node

theorem compact_of_none {order : KeyOrder} (none : index.tombstones = []) :
    index.compact order = index := by
  rw [HnswIndex.compact, if_pos none]

theorem live_compact_iff {order : KeyOrder} (node : Uuid) :
    Live (index.compact order) node ↔ Live index node := by
  by_cases none : index.tombstones = []
  · rw [compact_of_none none]
  · rw [HnswIndex.compact, if_neg none, Live, Live, Dict.mem_eraseAll_iff]
    exact and_iff_left List.not_mem_nil

/-! ## Search -/

/-- A search from a stored entry point does not panic. -/
theorem search_returns (numbers : Numbers Coord Distance Recall)
    (entryStored : ∀ node layer, index.entryPoint = some (node, layer) →
      node ∈ index.vectors ∧ layer < index.layers.length)
    (query : List Coord) (k : Nat) (recallTarget : Recall) :
    ∃ results, index.search numbers query k recallTarget = some results := by
  rw [HnswIndex.search]
  cases isEntry : index.entryPoint with
  | none => exact ⟨_, rfl⟩
  | some entryPoint =>
      rcases entryPoint with ⟨entry, entryLayer⟩
      rcases entryStored entry entryLayer isEntry with ⟨stored, inRange⟩
      dsimp only
      split
      · exact ⟨_, rfl⟩
      · have closed : ∀ lists, Closed index (· ∈ index.vectors) lists := fun _ _ _ _ isStored => isStored
        have descended : ∃ found, index.descend numbers query entry entryLayer 1 = some found ∧
            found ∈ index.vectors ∧ found ∈ index.vectors :=
          descend_spec inRange (fun _ lists _ _ => closed lists) stored stored
        rcases descended with ⟨found, ran, foundStored, -⟩
        rcases Option.isSome_iff_exists.mp (AList.lookup_isSome.mpr foundStored) with
          ⟨vector, isVector⟩
        have isLayer : index.layers[0]? = some index.layers[0] :=
          List.getElem?_eq_getElem (Nat.zero_lt_of_lt inRange)
        have searched : ∃ items, index.searchLayer numbers query
            [⟨numbers.euclidean query vector, found⟩]
            (HnswIndex.searchEf numbers k recallTarget) 0 = some items ∧ _ ∧ _ :=
          searchLayer_spec isLayer (closed _) fun item isIn => by
            rw [List.mem_singleton.mp isIn]
            exact foundStored
        rcases searched with ⟨items, ranSearch, -, -⟩
        rw [ran]
        dsimp only [Option.bind_eq_bind, Option.bind_some]
        rw [isVector]
        dsimp only [Option.bind_some]
        rw [ranSearch]
        exact ⟨_, rfl⟩

theorem search_spec (numbers : Numbers Coord Distance Recall) (sound : Sound index)
    (query : List Coord) (k : Nat) (recallTarget : Recall) :
    ∃ results, index.search numbers query k recallTarget = some results :=
  search_returns numbers sound.entry query k recallTarget

/-! ## Runs -/

/-- The states that calls lead to. Nodes are inserted only while they are not
stored. -/
inductive Reachable (numbers : Numbers Coord Distance Recall) : HnswIndex Coord → Prop
  | new (dims m efConstruction : Nat) : Reachable numbers (.new dims m efConstruction)
  | insert {index after : HnswIndex Coord} {outcome : Except HnswError Unit} (id : Uuid)
      (vector : List Coord) (reachable : Reachable numbers index) (new : id ∉ index.vectors)
      (inserted : index.insert numbers id vector = some (outcome, after)) : Reachable numbers after
  | delete {index : HnswIndex Coord} (id : Uuid) (reachable : Reachable numbers index) :
      Reachable numbers (index.delete id).2
  | compact {index : HnswIndex Coord} (order : KeyOrder) (reachable : Reachable numbers index) :
      Reachable numbers (index.compact order)

theorem Reachable.insert_get (reachable : Reachable numbers index) (id : Uuid)
    (vector : List Coord) (new : id ∉ index.vectors)
    (returns : (index.insert numbers id vector).isSome) :
    Reachable numbers ((index.insert numbers id vector).get returns).2 :=
  .insert id vector reachable new (Option.some_get returns).symm

theorem Reachable.sound (reachable : Reachable numbers index) : Sound index := by
  induction reachable with
  | new dims m efConstruction => exact sound_new dims m efConstruction
  | insert id vector _ new inserted sound =>
      rcases insert_spec numbers sound new vector with ⟨outcome, after, ran, soundAfter⟩
      cases ran.symm.trans inserted
      exact soundAfter
  | delete id _ sound => exact sound_delete sound id
  | compact order _ sound => exact sound_compact sound order

/-- In every state the lists and the entry point are sound, and no insertion of a
new node and no search panics. -/
theorem hnsw_sound (reachable : Reachable numbers index) :
    Sound index ∧
      (∀ id vector, id ∉ index.vectors → ∃ outcome after,
        index.insert numbers id vector = some (outcome, after)) ∧
      ∀ query k recallTarget, ∃ results, index.search numbers query k recallTarget = some results := by
  refine ⟨reachable.sound, fun id vector new => ?_, search_spec numbers reachable.sound⟩
  rcases insert_spec numbers reachable.sound new vector with ⟨outcome, after, ran, -⟩
  exact ⟨outcome, after, ran⟩

/-! ## A sample -/

def sampleNumbers : Numbers ℤ ℤ Unit where
  euclidean left right := (left.headD 0 - right.headD 0).natAbs
  randomLayer _ _ := 8
  isHigh _ := false
  efAdaptive k _ := k

def sampleNew : HnswIndex ℤ := .new 1 1 16

def sampleOne : HnswIndex ℤ :=
  ((sampleNew.insert sampleNumbers (.ofByte 1) [0]).get (by decide +kernel)).2

/-- Two points. -/
def sampleTwo : HnswIndex ℤ :=
  ((sampleOne.insert sampleNumbers (.ofByte 2) [1]).get (by decide +kernel)).2

/-- Three points. -/
def sampleThree : HnswIndex ℤ :=
  ((sampleTwo.insert sampleNumbers (.ofByte 3) [2]).get (by decide +kernel)).2

/-- Three points, without the one in the middle. -/
def sampleDeleted : HnswIndex ℤ := (sampleThree.delete (.ofByte 2)).2

theorem reachable_sampleDeleted : Reachable sampleNumbers sampleDeleted := by
  have new : Reachable sampleNumbers sampleNew := .new 1 1 16
  have one : Reachable sampleNumbers sampleOne :=
    new.insert_get (.ofByte 1) [0] (by decide +kernel) _
  have two : Reachable sampleNumbers sampleTwo :=
    one.insert_get (.ofByte 2) [1] (by decide +kernel) _
  have three : Reachable sampleNumbers sampleThree :=
    two.insert_get (.ofByte 3) [2] (by decide +kernel) _
  exact three.delete _

theorem hnsw_sound_sample :
    Reachable sampleNumbers sampleDeleted ∧ Sound sampleDeleted :=
  ⟨reachable_sampleDeleted, (hnsw_sound reachable_sampleDeleted).1⟩

end FunDB.Hnsw
