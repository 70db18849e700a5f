import FunDB.Indexes.HnswSearch

/-! # The links of the HNSW index

What linking a node keeps of the neighbour lists. -/

namespace FunDB.Hnsw

variable {Coord Distance Recall : Type} [LinearOrder Distance]
variable {numbers : Numbers Coord Distance Recall} {index : HnswIndex Coord}

/-! ## Lists -/

/-- Lists of different stored nodes, without the owner, and not too long. -/
structure LayerSound (stored : Uuid → Prop) (limit : Nat) (lists : Layer) : Prop where
  nodup : ∀ node, (lists.bucket node).Nodup
  other : ∀ node, node ∉ lists.bucket node
  bounded : ∀ node, (lists.bucket node).length ≤ limit
  listed : ∀ node, ∀ neighbour ∈ lists.bucket node, stored neighbour
  owners : ∀ node ∈ lists, stored node

/-- The node has linked to some neighbours, and no others have it in their
lists. -/
structure Linked (id : Uuid) (done : List Uuid) (lists : Layer) : Prop where
  own : lists.bucket id = done
  others : ∀ node, id ∈ lists.bucket node → node ∈ done

section Lists

variable {stored : Uuid → Prop} {limit : Nat} {lists : Layer} {id : Uuid}

theorem layerSound_empty : LayerSound stored limit ∅ where
  nodup _ := List.nodup_nil
  other _ := List.not_mem_nil
  bounded _ := Nat.zero_le _
  listed _ _ isIn := nomatch isIn
  owners _ isIn := absurd isIn (AList.notMem_empty _)

theorem bucket_touch (lists : Layer) (id node : Uuid) :
    Buckets.bucket (lists.touch id) node = lists.bucket node := by
  unfold Layer.touch
  split
  · rfl
  · next absent =>
      unfold Buckets.bucket
      rw [Dict.lookup_insert]
      split
      · next same => rw [same, AList.lookup_eq_none.mpr absent]; rfl
      · rfl

theorem mem_touch (lists : Layer) (id node : Uuid) (isIn : node ∈ lists.touch id) :
    node = id ∨ node ∈ lists := by
  unfold Layer.touch at isIn
  split at isIn
  · exact .inr isIn
  · exact AList.mem_insert _ |>.mp isIn

theorem LayerSound.mono {wider : Uuid → Prop} (sound : LayerSound stored limit lists)
    (more : ∀ node, stored node → wider node) : LayerSound wider limit lists where
  nodup := sound.nodup
  other := sound.other
  bounded := sound.bounded
  listed node neighbour isIn := more _ (sound.listed node neighbour isIn)
  owners node isIn := more _ (sound.owners node isIn)

theorem LayerSound.touch (sound : LayerSound stored limit lists) (isStored : stored id) :
    LayerSound stored limit (lists.touch id) where
  nodup node := by rw [bucket_touch]; exact sound.nodup node
  other node := by rw [bucket_touch]; exact sound.other node
  bounded node := by rw [bucket_touch]; exact sound.bounded node
  listed node := by rw [bucket_touch]; exact sound.listed node
  owners node isIn := by
    rcases mem_touch lists id node isIn with rfl | old
    · exact isStored
    · exact sound.owners node old

/-! ## Links -/

omit [LinearOrder Distance] in
theorem sublist_scored (vectors : Dict Uuid (List Coord)) (score : List Coord → Distance)
    (candidates : List Uuid) :
    ((candidates.filterMap fun id => (vectors.lookup id).map fun vector =>
      (score vector, id)).map Prod.snd).Sublist candidates := by
  induction candidates with
  | nil => exact .slnil
  | cons candidate candidates induction =>
      rw [List.filterMap_cons]
      cases vectors.lookup candidate with
      | none => exact induction.cons _
      | some vector => exact induction.cons_cons _

theorem selectNeighbours_spec (numbers : Numbers Coord Distance Recall) (index : HnswIndex Coord)
    (vector : List Coord) (m : Nat) {candidates : List Uuid} (distinct : candidates.Nodup) :
    (index.selectNeighbours numbers vector candidates m).Nodup ∧
      index.selectNeighbours numbers vector candidates m ⊆ candidates ∧
      (index.selectNeighbours numbers vector candidates m).length ≤ m := by
  have scored := sublist_scored index.vectors (numbers.euclidean vector) candidates
  have sorted := List.perm_insertionSort (fun left right : Distance × Uuid => left.1 ≤ right.1)
    (candidates.filterMap fun id => (index.vectors.lookup id).map fun other =>
      (numbers.euclidean vector other, id))
  have taken := List.take_sublist m (List.insertionSort
    (fun left right : Distance × Uuid => left.1 ≤ right.1)
    (candidates.filterMap fun id => (index.vectors.lookup id).map fun other =>
      (numbers.euclidean vector other, id)))
  refine ⟨?_, ?_, ?_⟩
  · apply List.Nodup.sublist (taken.map Prod.snd)
    exact (sorted.map Prod.snd).nodup_iff.mpr (distinct.sublist scored)
  · exact fun id isIn => scored.subset
      ((sorted.map Prod.snd).subset ((taken.map Prod.snd).subset isIn))
  · rw [HnswIndex.selectNeighbours, List.length_map]
    exact List.length_take_le _ _

theorem mem_linkLists (numbers : Numbers Coord Distance Recall) (index : HnswIndex Coord)
    (vector : List Coord) (pruned : Nat) {neighbour node : Uuid}
    (isIn : node ∈ index.linkLists numbers id pruned neighbour vector lists) :
    node = neighbour ∨ node = id ∨ node ∈ lists := by
  have keys (isKey : node ∈ (lists.push id neighbour).push neighbour id) :
      node = neighbour ∨ node = id ∨ node ∈ lists := by
    rcases (AList.mem_insert _).mp isKey with same | isKey
    · exact .inl same
    · exact .inr ((AList.mem_insert _).mp isKey)
  rw [HnswIndex.linkLists] at isIn
  split at isIn
  · rcases (AList.mem_insert _).mp isIn with same | isKey
    · exact .inl same
    · exact keys isKey
  · exact keys isIn

/-- What a link changes: the node's own list, and the list of the neighbour,
which keeps at most so many of its old nodes and the new one. -/
theorem linkLists_cases (numbers : Numbers Coord Distance Recall) (index : HnswIndex Coord)
    (vector : List Coord) (pruned : Nat) {neighbour : Uuid}
    (different : neighbour ≠ id) (distinct : (lists.bucket neighbour).Nodup)
    (new : id ∉ lists.bucket neighbour) :
    ∃ kept : List Uuid, kept.Nodup ∧ kept ⊆ lists.bucket neighbour ++ [id] ∧
      kept.length ≤ pruned ∧
      ∀ node, Buckets.bucket (index.linkLists numbers id pruned neighbour vector lists) node =
        if node = neighbour then kept
        else if node = id then lists.bucket id ++ [neighbour] else lists.bucket node := by
  have both : ∀ node, Buckets.bucket ((lists.push id neighbour).push neighbour id) node =
      if node = neighbour then lists.bucket neighbour ++ [id]
      else if node = id then lists.bucket id ++ [neighbour] else lists.bucket node := by
    intro node
    rw [Buckets.bucket_push, Buckets.bucket_push, Buckets.bucket_push, if_neg different]
  have distinctBoth : (lists.bucket neighbour ++ [id]).Nodup := by
    rw [← List.concat_eq_append]
    exact distinct.concat new
  have own : Buckets.bucket ((lists.push id neighbour).push neighbour id) neighbour =
      lists.bucket neighbour ++ [id] := by
    rw [both, if_pos rfl]
  rw [HnswIndex.linkLists, own]
  split
  · rcases selectNeighbours_spec numbers index vector pruned distinctBoth with
      ⟨keptDistinct, keptSubset, keptShort⟩
    refine ⟨_, keptDistinct, keptSubset, keptShort, fun node => ?_⟩
    unfold Buckets.bucket
    rw [Dict.lookup_insert]
    split
    · rfl
    · next same => exact (both node).trans (if_neg same)
  · next short => exact ⟨_, distinctBoth, List.Subset.refl _, Nat.le_of_not_lt short, both⟩

theorem linkLists_spec (numbers : Numbers Coord Distance Recall) (index : HnswIndex Coord)
    (vector : List Coord) (pruned : Nat) {done : List Uuid} {neighbour : Uuid}
    (sound : LayerSound stored limit lists) (linked : Linked id done lists)
    (new : neighbour ∉ done) (different : neighbour ≠ id) (isStored : stored id)
    (neighbourStored : stored neighbour) (room : done.length < limit) (prunedLe : pruned ≤ limit) :
    LayerSound stored limit (index.linkLists numbers id pruned neighbour vector lists) ∧
      Linked id (done ++ [neighbour])
        (index.linkLists numbers id pruned neighbour vector lists) := by
  have absent : id ∉ lists.bucket neighbour := fun isIn => new (linked.others neighbour isIn)
  rcases linkLists_cases numbers index vector pruned different (sound.nodup neighbour) absent with
    ⟨kept, keptDistinct, keptSubset, keptShort, buckets⟩
  have keptCases : ∀ other ∈ kept, other ∈ lists.bucket neighbour ∨ other = id := by
    intro other isIn
    exact (List.mem_append.mp (keptSubset isIn)).imp_right List.mem_singleton.mp
  rw [linked.own] at buckets
  have ownBucket : ∀ other, other ∈ done ++ [neighbour] → other ≠ id ∧ stored other := by
    intro other isIn
    rcases List.mem_append.mp isIn with old | isNeighbour
    · rw [← linked.own] at old
      exact ⟨fun same => sound.other id (same ▸ old), sound.listed id other old⟩
    · rw [List.mem_singleton.mp isNeighbour]
      exact ⟨different, neighbourStored⟩
  -- One bucket is the neighbour's, one the node's own, and the others stay.
  have bucketCases (node : Uuid) :
      let after := index.linkLists numbers id pruned neighbour vector lists
      (node = neighbour ∧ after.bucket node = kept) ∨
        (node = id ∧ after.bucket node = done ++ [neighbour]) ∨
        after.bucket node = lists.bucket node := by
    have isBucket := buckets node
    split at isBucket
    · next same => exact .inl ⟨same, isBucket⟩
    · split at isBucket
      · next same => exact .inr (.inl ⟨same, isBucket⟩)
      · exact .inr (.inr isBucket)
  refine ⟨⟨?_, ?_, ?_, ?_, ?_⟩, ⟨?_, ?_⟩⟩
  · intro node
    rcases bucketCases node with ⟨_, same⟩ | ⟨_, same⟩ | same <;> rw [same]
    · exact keptDistinct
    · rw [← List.concat_eq_append]
      exact List.Nodup.concat new (linked.own ▸ sound.nodup id)
    · exact sound.nodup node
  · intro node isIn
    rcases bucketCases node with ⟨rfl, same⟩ | ⟨rfl, same⟩ | same <;> rw [same] at isIn
    · rcases keptCases node isIn with old | same
      · exact sound.other node old
      · exact different same
    · exact (ownBucket node isIn).1 rfl
    · exact sound.other node isIn
  · intro node
    rcases bucketCases node with ⟨_, same⟩ | ⟨_, same⟩ | same <;> rw [same]
    · exact keptShort.trans prunedLe
    · rw [List.length_append]
      exact room
    · exact sound.bounded node
  · intro node other isIn
    rcases bucketCases node with ⟨_, same⟩ | ⟨_, same⟩ | same <;> rw [same] at isIn
    · rcases keptCases other isIn with old | same
      · exact sound.listed neighbour other old
      · exact same ▸ isStored
    · exact (ownBucket other isIn).2
    · exact sound.listed node other isIn
  · intro node isIn
    rcases mem_linkLists numbers index vector pruned isIn with rfl | rfl | old
    · exact neighbourStored
    · exact isStored
    · exact sound.owners node old
  · rw [buckets, if_neg (Ne.symm different), if_pos rfl]
  · intro node isIn
    rcases bucketCases node with ⟨same, _⟩ | ⟨rfl, same⟩ | same
    · exact List.mem_append_right _ (List.mem_singleton.mpr same)
    · rw [same] at isIn
      exact absurd rfl (ownBucket node isIn).1
    · rw [same] at isIn
      exact List.mem_append_left _ (linked.others node isIn)

end Lists

/-! ## Layers -/

/-- How many neighbours a list of a layer has at most. -/
def limit (m layer : Nat) : Nat := if layer = 0 then 2 * m else m

def LayersSound (index : HnswIndex Coord) : Prop :=
  ∀ place lists, index.layers[place]? = some lists →
    LayerSound (· ∈ index.vectors) (limit index.m place) lists

theorem m_le_limit (m layer : Nat) : m ≤ limit m layer := by
  unfold limit
  split
  · omega
  · exact Nat.le_refl m

theorem mMax_le_limit (index : HnswIndex Coord) (layer : Nat) :
    index.mMax layer ≤ limit index.m layer := by
  unfold HnswIndex.mMax limit HnswIndex.word
  split
  · exact (Nat.mod_le _ _).trans (Nat.le_of_eq (Nat.mul_comm _ _))
  · exact Nat.le_refl _

section Layers

variable {id : Uuid} {layer : Nat}

/-- What linking to neighbours in one layer leads to. -/
structure LinkedTo (index : HnswIndex Coord) (id : Uuid) (layer : Nat) (done : List Uuid)
    (layers : List Layer) : Prop where
  length : layers.length = index.layers.length
  sound : LayersSound { index with layers := layers }
  linked : ∃ lists, layers[layer]? = some lists ∧ Linked id done lists
  others : ∀ place, place ≠ layer → layers[place]? = index.layers[place]?

theorem connect_spec {done : List Uuid} {neighbour : Uuid} {layers : List Layer}
    (before : LinkedTo index id layer done layers) (isStored : id ∈ index.vectors)
    (new : neighbour ∉ done) (different : neighbour ≠ id) (neighbourStored : neighbour ∈ index.vectors)
    (room : done.length < index.m) :
    ∃ after, HnswIndex.connect numbers { index with layers := layers } id layer neighbour =
        some { index with layers := after } ∧
      LinkedTo index id layer (done ++ [neighbour]) after := by
  rcases before.linked with ⟨lists, isLayer, linked⟩
  rcases Option.isSome_iff_exists.mp (AList.lookup_isSome.mpr neighbourStored) with ⟨vector, found⟩
  have inRange : layer < layers.length := (List.getElem?_eq_some_iff.mp isLayer).1
  have spec := linkLists_spec numbers { index with layers := layers } vector _
    (before.sound layer lists isLayer) linked new different isStored neighbourStored
    (room.trans_le (m_le_limit index.m layer)) (mMax_le_limit index layer)
  refine ⟨_, ?_, ?_, ?_, ⟨_, List.getElem?_set_self inRange, spec.2⟩, ?_⟩
  · rw [HnswIndex.connect]
    dsimp only
    rw [isLayer, found]
    rfl
  · rw [List.length_set]
    exact before.length
  · intro place other isOther
    by_cases same : layer = place
    · subst same
      cases (List.getElem?_set_self inRange).symm.trans isOther
      exact spec.1
    · dsimp only at isOther
      rw [List.getElem?_set_ne same] at isOther
      exact before.sound place other isOther
  · intro place different
    rw [List.getElem?_set_ne (Ne.symm different)]
    exact before.others place different

theorem connects_spec {neighbours : List (Item Distance)} {done : List Uuid} {layers : List Layer}
    (before : LinkedTo index id layer done layers) (isStored : id ∈ index.vectors)
    (distinct : (done ++ neighbours.map Item.id).Nodup)
    (apart : ∀ item ∈ neighbours, item.id ∈ index.vectors ∧ item.id ≠ id)
    (room : done.length + neighbours.length ≤ index.m) :
    ∃ after, neighbours.foldlM (fun index neighbour =>
        index.connect numbers id layer neighbour.id) { index with layers := layers } =
        some { index with layers := after } ∧
      LinkedTo index id layer (done ++ neighbours.map Item.id) after := by
  induction neighbours generalizing done layers with
  | nil =>
      refine ⟨layers, rfl, ?_⟩
      rw [List.map_nil, List.append_nil]
      exact before
  | cons neighbour neighbours induction =>
      rcases apart neighbour List.mem_cons_self with ⟨neighbourStored, different⟩
      have new : neighbour.id ∉ done := by
        intro isIn
        exact (List.nodup_append.mp distinct).2.2 _ isIn _ List.mem_cons_self rfl
      rw [List.length_cons] at room
      have step : ∃ after, HnswIndex.connect numbers { index with layers := layers } id layer
          neighbour.id = some { index with layers := after } ∧ _ :=
        connect_spec before isStored new different neighbourStored (by omega)
      rcases step with ⟨middle, ran, linked⟩
      have rearranged : done ++ (neighbour :: neighbours).map Item.id =
          done ++ [neighbour.id] ++ neighbours.map Item.id := by simp
      rw [rearranged] at distinct ⊢
      rw [List.foldlM_cons, ran]
      apply induction linked distinct
      · exact fun item isIn => apart item (List.mem_cons_of_mem _ isIn)
      · rw [List.length_append, List.length_singleton]
        omega

theorem linkLayers_spec {vector : List Coord} {count : Nat} {entries : List (Item Distance)}
    (sound : LayersSound index) (isStored : id ∈ index.vectors)
    (inRange : count ≤ index.layers.length)
    (unlinked : ∀ place < count, ∀ lists, index.layers[place]? = some lists → Linked id [] lists)
    (entriesIn : ∀ item ∈ entries, item.id ∈ index.vectors ∧ item.id ≠ id) :
    ∃ layers, HnswIndex.linkLayers numbers id vector count entries index =
        some { index with layers := layers } ∧
      layers.length = index.layers.length ∧ LayersSound { index with layers := layers } := by
  induction count generalizing index entries with
  | zero => exact ⟨index.layers, rfl, rfl, sound⟩
  | succ layer induction =>
      have isLayer : index.layers[layer]? = some index.layers[layer] :=
        List.getElem?_eq_getElem inRange
      have none := unlinked layer (Nat.lt_succ_self layer) _ isLayer
      have closed : Closed index (fun node => node ∈ index.vectors ∧ node ≠ id)
          index.layers[layer] := by
        intro node other isIn otherStored
        refine ⟨otherStored, ?_⟩
        rintro rfl
        cases none.others node isIn
      have found : ∃ items, index.searchLayer numbers vector entries index.efConstruction layer =
          some items ∧ (items.map Item.id).Nodup ∧ ∀ item ∈ items, _ :=
        searchLayer_spec isLayer closed entriesIn
      rcases found with ⟨items, searched, distinct, inside⟩
      have start : LinkedTo index id layer [] index.layers :=
        ⟨rfl, sound, ⟨_, isLayer, none⟩, fun _ _ => rfl⟩
      have taken : (items.take index.m).Sublist items := List.take_sublist _ _
      have connected : ∃ after, (items.take index.m).foldlM (fun index neighbour =>
          index.connect numbers id layer neighbour.id) { index with layers := index.layers } =
          some { index with layers := after } ∧ _ :=
        connects_spec start isStored (distinct.sublist (taken.map Item.id))
          (fun item isIn => inside item (taken.subset isIn))
          (by simp)
      rcases connected with ⟨after, ran, linked⟩
      have rest : ∃ layers, HnswIndex.linkLayers numbers id vector layer items
          { index with layers := after } = some { index with layers := layers } ∧
          layers.length = after.length ∧ LayersSound { index with layers := layers } := by
        apply induction linked.sound isStored
        · dsimp only
          rw [linked.length]
          omega
        · intro place below lists isPlace
          dsimp only at isPlace
          rw [linked.others place (Nat.ne_of_lt below)] at isPlace
          exact unlinked place (below.trans (Nat.lt_succ_self layer)) lists isPlace
        · exact inside
      rcases rest with ⟨layers, linkedRest, length, soundRest⟩
      refine ⟨layers, ?_, length.trans linked.length, soundRest⟩
      rw [HnswIndex.linkLayers, searched]
      dsimp only [Option.bind_eq_bind, Option.bind_some]
      rw [ran]
      exact linkedRest

end Layers

end FunDB.Hnsw
