import FunDB.Indexes.HnswInvariant

/-! # The results of the HNSW index

A beam search keeps both heaps in order, with the true distance of each item. So a
search finds different live nodes, from the nearest to the farthest. -/

namespace FunDB.Hnsw

variable {Coord Distance Recall : Type} [LinearOrder Distance]
variable {numbers : Numbers Coord Distance Recall} {index : HnswIndex Coord}

/-! ## The order of items -/

instance Item.leTrans : IsTrans (Item Distance) Item.Le where
  trans left middle right first second := by
    rcases first with nearer | ⟨same, before⟩
    · rcases second with farther | ⟨same, -⟩
      · exact .inl (nearer.trans farther)
      · exact .inl (same ▸ nearer)
    · rcases second with farther | ⟨alike, behind⟩
      · exact .inl (same ▸ farther)
      · exact .inr ⟨same.trans alike, List.le_trans before behind⟩

instance Item.leTotal : Std.Total (@Item.Le Distance _) where
  total left right := by
    rcases lt_trichotomy left.dist right.dist with nearer | same | farther
    · exact .inl (.inl nearer)
    · exact (List.le_total left.id.toList right.id.toList).imp (fun before => .inr ⟨same, before⟩)
        fun behind => .inr ⟨same.symm, behind⟩
    · exact .inr (.inl farther)

theorem Item.Le.dist_le {left right : Item Distance} (before : left.Le right) :
    left.dist ≤ right.dist :=
  before.elim le_of_lt fun both => le_of_eq both.1

/-! ## Beams in order -/

/-- Both heaps are in order, and each item has its distance to the query. -/
structure BeamOrdered (numbers : Numbers Coord Distance Recall) (index : HnswIndex Coord)
    (query : List Coord) (beam : Beam Distance) : Prop where
  candidates : beam.candidates.Pairwise Item.Le
  result : beam.result.Pairwise Item.Le
  near : ∀ item ∈ beam.candidates, Measured numbers index (fun _ => True) query item
  found : ∀ item ∈ beam.result, Measured numbers index (fun _ => True) query item

namespace BeamOrdered

variable {query : List Coord} {beam : Beam Distance} {item : Item Distance}

theorem empty : BeamOrdered numbers index query ⟨[], [], []⟩ where
  candidates := .nil
  result := .nil
  near _ isIn := nomatch isIn
  found _ isIn := nomatch isIn

theorem visit (ordered : BeamOrdered numbers index query beam) (id : Uuid) :
    BeamOrdered numbers index query (beam.visit id) where
  candidates := ordered.candidates
  result := ordered.result
  near := ordered.near
  found := ordered.found

theorem push (ordered : BeamOrdered numbers index query beam)
    (measured : Measured numbers index (fun _ => True) query item) :
    BeamOrdered numbers index query (beam.push item) where
  candidates := ordered.candidates.orderedInsert item beam.candidates
  result := ordered.result.orderedInsert item beam.result
  near other isIn := by
    rcases (List.mem_orderedInsert Item.Le).mp isIn with rfl | old
    · exact measured
    · exact ordered.near other old
  found other isIn := by
    rcases (List.mem_orderedInsert Item.Le).mp isIn with rfl | old
    · exact measured
    · exact ordered.found other old

theorem evict (ordered : BeamOrdered numbers index query beam) (ef : Nat) :
    BeamOrdered numbers index query (beam.evict ef) := by
  unfold Beam.evict
  split
  · have shorter : beam.result.dropLast.Sublist beam.result := List.dropLast_sublist _
    exact {
      candidates := ordered.candidates
      result := ordered.result.sublist shorter
      near := ordered.near
      found := fun item isIn => ordered.found item (shorter.subset isIn) }
  · exact ordered

theorem enter (ordered : BeamOrdered numbers index query beam)
    (measured : Measured numbers index (fun _ => True) query item) :
    BeamOrdered numbers index query (beam.enter item) := by
  unfold Beam.enter
  split
  · exact ordered
  · exact (ordered.visit item.id).push measured

theorem start {entries : List (Item Distance)}
    (measured : ∀ item ∈ entries, Measured numbers index (fun _ => True) query item) :
    BeamOrdered numbers index query (Beam.start entries) := by
  have enters : ∀ beam, BeamOrdered numbers index query beam →
      BeamOrdered numbers index query (entries.foldl Beam.enter beam) := by
    induction entries with
    | nil => exact fun _ ordered => ordered
    | cons item entries induction =>
        intro beam ordered
        apply induction (fun other isIn => measured other (List.mem_cons_of_mem _ isIn))
        exact ordered.enter (measured item List.mem_cons_self)
  exact enters _ empty

theorem offer (ordered : BeamOrdered numbers index query beam) (ef : Nat) (neighbour : Uuid) :
    BeamOrdered numbers index query (index.offer numbers query ef beam neighbour) := by
  unfold HnswIndex.offer
  split
  · exact ordered
  · cases found : index.vectors.lookup neighbour with
    | none => exact ordered.visit neighbour
    | some vector =>
        dsimp only
        split
        · apply BeamOrdered.evict
          exact (ordered.visit neighbour).push ⟨trivial, vector, found, rfl⟩
        · exact ordered.visit neighbour

theorem offers (ordered : BeamOrdered numbers index query beam) (ef : Nat)
    (neighbours : List Uuid) :
    BeamOrdered numbers index query (neighbours.foldl (index.offer numbers query ef) beam) := by
  induction neighbours generalizing beam with
  | nil => exact ordered
  | cons neighbour neighbours induction => exact induction (ordered.offer ef neighbour)

theorem pop {current : Item Distance} {rest : List (Item Distance)}
    (ordered : BeamOrdered numbers index query beam) (next : beam.candidates = current :: rest) :
    BeamOrdered numbers index query { beam with candidates := rest } where
  candidates := (List.pairwise_cons.mp (next ▸ ordered.candidates)).2
  result := ordered.result
  near item isIn := ordered.near item (next ▸ List.mem_cons_of_mem _ isIn)
  found := ordered.found

end BeamOrdered

/-! ## The loop -/

/-- The beam when a search ends: there is no candidate, or the nearest is too far. -/
def Beam.Ended (beam : Beam Distance) (ef : Nat) : Prop :=
  ∀ current ∈ beam.candidates.head?, beam.IsDone current ef

/-- What the expansion of a candidate keeps holds when a beam search ends. -/
theorem beamLoop_invariant {Invariant : Beam Distance → Prop} {query : List Coord}
    {ef layer fuel : Nat} {lists : Layer} {beam : Beam Distance} {items : List (Item Distance)}
    (isLayer : index.layers[layer]? = some lists)
    (kept : ∀ beam current rest, Invariant beam → beam.candidates = current :: rest →
      ¬beam.IsDone current ef → Invariant ((lists.bucket current.id).foldl (index.offer numbers query ef)
        { beam with candidates := rest }))
    (initial : Invariant beam)
    (ran : index.beamLoop numbers query ef layer fuel beam = some items) :
    ∃ last, Invariant last ∧ last.Ended ef ∧ items = last.result := by
  induction fuel generalizing beam with
  | zero => cases ran
  | succ fuel induction =>
      rw [HnswIndex.beamLoop] at ran
      split at ran
      · next none =>
          cases ran
          refine ⟨beam, initial, fun current isHead => ?_, rfl⟩
          rw [none] at isHead
          cases isHead
      · next current rest next =>
          split at ran
          · next done =>
              cases ran
              refine ⟨beam, initial, fun other isHead => ?_, rfl⟩
              rw [next] at isHead
              cases isHead
              exact done
          · next further =>
              rw [isLayer] at ran
              exact induction (kept beam current rest initial next further) ran

theorem ordered_searchLayer {query : List Coord} {entries items : List (Item Distance)}
    {ef layer : Nat} {lists : Layer} (isLayer : index.layers[layer]? = some lists)
    (measured : ∀ item ∈ entries, Measured numbers index (fun _ => True) query item)
    (ran : index.searchLayer numbers query entries ef layer = some items) :
    items.Pairwise Item.Le ∧
      ∀ item ∈ items, Measured numbers index (fun _ => True) query item := by
  have ended : ∃ last, BeamOrdered numbers index query last ∧ last.Ended ef ∧ items = last.result :=
    beamLoop_invariant isLayer
      (fun _ _ _ ordered next _ => (ordered.pop next).offers ef _) (.start measured) ran
  rcases ended with ⟨last, ordered, -, rfl⟩
  exact ⟨ordered.result, ordered.found⟩

/-! ## Searches -/

/-- What a search returns when the index has an entry point and a live node. -/
theorem search_cases {query : List Coord} {k : Nat} {recallTarget : Recall}
    {results : List (Uuid × Distance)}
    (ran : index.search numbers query k recallTarget = some results) :
    (index.entryPoint = none ∨ index.liveCount = 0) ∧ results = [] ∨
      ∃ entry entryLayer found vector items,
        index.entryPoint = some (entry, entryLayer) ∧ index.liveCount ≠ 0 ∧
        index.descend numbers query entry entryLayer 1 = some found ∧
        index.vectors.lookup found = some vector ∧
        index.searchLayer numbers query [⟨numbers.euclidean query vector, found⟩]
          (HnswIndex.searchEf numbers k recallTarget) 0 = some items ∧
        results = ((items.filter fun item => item.id ∉ index.tombstones).take k).map
          fun item => (item.id, item.dist) := by
  rw [HnswIndex.search] at ran
  split at ran
  · next noEntry =>
      cases ran
      exact .inl ⟨.inl noEntry, rfl⟩
  · next entry entryLayer isEntry =>
      split at ran
      · next noLive =>
          cases ran
          exact .inl ⟨.inr noLive, rfl⟩
      · next live =>
          rcases Option.bind_eq_some_iff.mp ran with ⟨found, descended, ran⟩
          rcases Option.bind_eq_some_iff.mp ran with ⟨vector, isVector, ran⟩
          rcases Option.bind_eq_some_iff.mp ran with ⟨items, searched, ran⟩
          cases ran
          exact .inr ⟨entry, entryLayer, found, vector, items, isEntry, live, descended, isVector,
            searched, rfl⟩

/-- A search returns at most so many different nodes that are not deleted, each with
its distance to the query, from the nearest to the farthest. -/
structure SearchSound (numbers : Numbers Coord Distance Recall) (index : HnswIndex Coord)
    (query : List Coord) (k : Nat) (results : List (Uuid × Distance)) : Prop where
  length_le : results.length ≤ k
  nodup : (results.map Prod.fst).Nodup
  alive : ∀ result ∈ results, result.1 ∉ index.tombstones
  distances : ∀ result ∈ results, ∃ vector, index.vectors.lookup result.1 = some vector ∧
    result.2 = numbers.euclidean query vector
  ascending : results.Pairwise fun left right => left.2 ≤ right.2

theorem searchSound_empty (query : List Coord) (k : Nat) :
    SearchSound numbers index query k [] where
  length_le := Nat.zero_le k
  nodup := .nil
  alive _ isIn := nomatch isIn
  distances _ isIn := nomatch isIn
  ascending := .nil

theorem searchSound_of_items {query : List Coord} {items : List (Item Distance)} (k : Nat)
    (distinct : (items.map Item.id).Nodup) (ordered : items.Pairwise Item.Le)
    (measured : ∀ item ∈ items, Measured numbers index (fun _ => True) query item) :
    SearchSound numbers index query k
      (((items.filter fun item => item.id ∉ index.tombstones).take k).map
        fun item => (item.id, item.dist)) := by
  have fewer : ((items.filter fun item => item.id ∉ index.tombstones).take k).Sublist items :=
    (List.take_sublist k _).trans List.filter_sublist
  constructor
  · rw [List.length_map]
    exact List.length_take_le k _
  · rw [List.map_map]
    exact distinct.sublist (fewer.map Item.id)
  · intro result isResult
    rcases List.mem_map.mp isResult with ⟨item, isIn, rfl⟩
    simpa using List.of_mem_filter (List.mem_of_mem_take isIn)
  · intro result isResult
    rcases List.mem_map.mp isResult with ⟨item, isIn, rfl⟩
    exact (measured item (fewer.subset isIn)).dist
  · apply List.Pairwise.map _ _ (ordered.sublist fewer)
    exact fun left right before => before.dist_le

/-- In every state a search returns, and what it returns is sound. -/
theorem search_sound (reachable : Reachable numbers index) (query : List Coord) (k : Nat)
    (recallTarget : Recall) :
    ∃ results, index.search numbers query k recallTarget = some results ∧
      SearchSound numbers index query k results := by
  have sound : Sound index := reachable.sound
  rcases search_spec numbers sound query k recallTarget with ⟨results, ran⟩
  refine ⟨results, ran, ?_⟩
  rcases search_cases ran with ⟨-, rfl⟩ | found
  · exact searchSound_empty query k
  · rcases found with
      ⟨entry, entryLayer, node, vector, items, isEntry, -, -, isVector, searched, rfl⟩
    have inRange : 0 < index.layers.length :=
      Nat.zero_lt_of_lt (sound.entry entry entryLayer isEntry).2
    have isLayer : index.layers[0]? = some index.layers[0] := List.getElem?_eq_getElem inRange
    have measured : ∀ item ∈ [Item.mk (numbers.euclidean query vector) node],
        Measured numbers index (fun _ => True) query item := by
      intro item isIn
      rw [List.mem_singleton.mp isIn]
      exact ⟨trivial, vector, isVector, rfl⟩
    have different : ∃ others, index.searchLayer numbers query
        [⟨numbers.euclidean query vector, node⟩] (HnswIndex.searchEf numbers k recallTarget) 0 =
          some others ∧ (others.map Item.id).Nodup ∧ ∀ item ∈ others, True :=
      searchLayer_spec isLayer (fun _ _ _ _ => trivial) fun _ _ => trivial
    rcases different with ⟨others, same, distinct, -⟩
    cases same.symm.trans searched
    rcases ordered_searchLayer isLayer measured searched with ⟨ordered, allMeasured⟩
    exact searchSound_of_items k distinct ordered allMeasured

theorem search_sound_sample :
    Reachable sampleNumbers sampleDeleted ∧
      ∃ results, sampleDeleted.search sampleNumbers [1] 2 () = some results ∧
        SearchSound sampleNumbers sampleDeleted [1] 2 results :=
  ⟨reachable_sampleDeleted, search_sound reachable_sampleDeleted [1] 2 ()⟩

end FunDB.Hnsw
