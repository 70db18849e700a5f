import FunDB.Indexes.HnswCalls
import FunDB.Indexes.HnswResults

/-! # What a search of the HNSW index explores

A beam search finds what it can reach over near nodes, or the near nodes fill the
beam. The descent before it ends at the entry point or at a nearer live node. -/

namespace FunDB.Hnsw

open GraphSearch

variable {Coord Distance Recall : Type} [LinearOrder Distance]
variable {numbers : Numbers Coord Distance Recall} {index : HnswIndex Coord}

/-! ## Near nodes -/

/-- The node is stored, at a near distance from the query. -/
def Near (numbers : Numbers Coord Distance Recall) (index : HnswIndex Coord) (query : List Coord)
    (near : Distance → Prop) (id : Uuid) : Prop :=
  ∃ vector ∈ index.vectors.lookup id, near (numbers.euclidean query vector)

instance Near.decidable (query : List Coord) (near : Distance → Prop) [DecidablePred near]
    (id : Uuid) : Decidable (Near numbers index query near id) :=
  inferInstanceAs (Decidable (∃ vector ∈ index.vectors.lookup id, _))

omit [LinearOrder Distance] in
theorem Near.stored {query : List Coord} {near : Distance → Prop} {id : Uuid}
    (isNear : Near numbers index query near id) : id ∈ index.vectors := by
  rcases isNear with ⟨vector, found, -⟩
  exact AList.lookup_isSome.mp (by rw [Option.mem_def.mp found]; rfl)

omit [LinearOrder Distance] in
theorem Measured.near_iff {query : List Coord} {near : Distance → Prop} {inside : Uuid → Prop}
    {item : Item Distance} (measured : Measured numbers index inside query item) :
    Near numbers index query near item.id ↔ near item.dist := by
  rcases measured.dist with ⟨vector, found, same⟩
  simp only [Near, found, Option.mem_some_iff, exists_eq_left', same]

/-! ## The beam -/

/-- There are as many results as there may be, and all are near. -/
def Beam.Filled (beam : Beam Distance) (near : Distance → Prop) (ef : Nat) : Prop :=
  ef ≤ beam.result.length ∧ ∀ item ∈ beam.result, near item.dist

/-- Every near node that was visited is a result, and it waits for its expansion, or
is one of some exceptions, or its neighbours were visited. -/
def Explores (numbers : Numbers Coord Distance Recall) (index : HnswIndex Coord)
    (query : List Coord) (near : Distance → Prop) (lists : Layer) (except : Uuid → Prop)
    (beam : Beam Distance) : Prop :=
  ∀ id ∈ beam.visited, Near numbers index query near id →
    id ∈ beam.result.map Item.id ∧
      (id ∈ beam.candidates.map Item.id ∨ lists.bucket id ⊆ beam.visited ∨ except id)

section Beam

variable {query : List Coord} {near : Distance → Prop} {lists : Layer} {except : Uuid → Prop}
variable {beam : Beam Distance} {ef : Nat}

theorem BeamOrdered.le_worst (ordered : BeamOrdered numbers index query beam) {worst : Distance}
    (isWorst : worst ∈ beam.worst) {item : Item Distance} (isIn : item ∈ beam.result) :
    item.dist ≤ worst := by
  rcases Option.map_eq_some_iff.mp isWorst with ⟨last, isLast, rfl⟩
  rcases List.getLast?_eq_some_iff.mp isLast with ⟨init, split⟩
  have sorted := ordered.result
  rw [split] at isIn sorted
  rcases List.mem_append.mp isIn with before | same
  · exact ((List.pairwise_append.mp sorted).2.2 item before last List.mem_cons_self).dist_le
  · exact le_of_eq (congrArg Item.dist (List.mem_singleton.mp same))

/-- If the farthest of enough results is near, the beam is filled. -/
theorem BeamOrdered.filled (ordered : BeamOrdered numbers index query beam)
    (closed : ∀ left right, left ≤ right → near right → near left)
    (enough : ef ≤ beam.result.length)
    {worst : Distance} (isWorst : worst ∈ beam.worst) (isNear : near worst) :
    beam.Filled near ef :=
  ⟨enough, fun _ isIn => closed _ _ (ordered.le_worst isWorst isIn) isNear⟩

omit [LinearOrder Distance] in
theorem filled_evict (enough : ef ≤ beam.result.length)
    (allNear : ∀ item ∈ beam.result, near item.dist) : (beam.evict ef).Filled near ef := by
  unfold Beam.evict
  split
  · next tooMany =>
      refine ⟨?_, fun item isIn => allNear item (List.dropLast_subset _ isIn)⟩
      dsimp only
      rw [List.length_dropLast]
      omega
  · exact ⟨enough, allNear⟩

/-- What a filled beam wants is near, because it is nearer than the farthest result. -/
theorem Beam.Filled.near_of_wants (filled : beam.Filled near ef)
    (closed : ∀ left right, left ≤ right → near right → near left) (positive : 0 < ef)
    {dist : Distance} (wanted : beam.Wants dist ef) : near dist := by
  have nonempty : beam.result ≠ [] := List.ne_nil_of_length_pos (positive.trans_le filled.1)
  have isWorst : (beam.result.getLast nonempty).dist ∈ beam.worst := by
    rw [Beam.worst, List.getLast?_eq_some_getLast nonempty]
    rfl
  rcases wanted with nearer | few
  · apply closed _ _ (nearer _ isWorst).le
    exact filled.2 _ (List.getLast_mem nonempty)
  · exact absurd filled.1 (Nat.not_le_of_lt few)

theorem Beam.Filled.push (filled : beam.Filled near ef) {item : Item Distance}
    (itemNear : near item.dist) : ((beam.push item).evict ef).Filled near ef := by
  apply filled_evict
  · rw [Beam.push, List.orderedInsert_length]
    exact filled.1.trans (Nat.le_succ _)
  · intro other isIn
    rcases (List.mem_orderedInsert Item.Le).mp isIn with rfl | old
    · exact itemNear
    · exact filled.2 other old

omit [LinearOrder Distance] in
theorem explores_visit {neighbour : Uuid}
    (explores : Explores numbers index query near lists except beam)
    (far : ¬Near numbers index query near neighbour) :
    Explores numbers index query near lists except (beam.visit neighbour) := by
  intro id isVisited isNear
  rcases List.mem_cons.mp isVisited with rfl | old
  · exact absurd isNear far
  · rcases explores id old isNear with ⟨found, rest⟩
    exact ⟨found, rest.imp_right (Or.imp_left fun all => List.subset_cons_of_subset _ all)⟩

theorem mem_map_orderedInsert (item : Item Distance) (items : List (Item Distance))
    (id : Uuid) :
    id ∈ (items.orderedInsert Item.Le item).map Item.id ↔
      id = item.id ∨ id ∈ items.map Item.id := by
  rw [((List.perm_orderedInsert Item.Le item items).map Item.id).mem_iff, List.map_cons,
    List.mem_cons]

theorem explores_push {item : Item Distance}
    (explores : Explores numbers index query near lists except beam) :
    Explores numbers index query near lists except ((beam.visit item.id).push item) := by
  intro id isVisited isNear
  simp only [Beam.push, Beam.visit, mem_map_orderedInsert]
  rcases List.mem_cons.mp isVisited with rfl | old
  · exact ⟨.inl rfl, .inl (.inl rfl)⟩
  · rcases explores id old isNear with ⟨found, rest⟩
    refine ⟨.inr found, rest.imp .inr (Or.imp_left fun all => ?_)⟩
    exact List.subset_cons_of_subset _ all

theorem explores_evict (ordered : BeamOrdered numbers index query beam)
    (closed : ∀ left right, left ≤ right → near right → near left)
    (explores : Explores numbers index query near lists except beam) :
    (beam.evict ef).Filled near ef ∨
      Explores numbers index query near lists except (beam.evict ef) := by
  by_cases tooMany : ef < beam.result.length
  · rcases List.getLast?_eq_some_iff.mp
      (List.getLast?_eq_some_getLast (List.ne_nil_of_length_pos (Nat.zero_lt_of_lt tooMany))) with
      ⟨init, split⟩
    generalize beam.result.getLast _ = last at split
    have isWorst : last.dist ∈ beam.worst := by simp [Beam.worst, split]
    by_cases lastNear : near last.dist
    · have filled : beam.Filled near ef := ordered.filled closed tooMany.le isWorst lastNear
      exact .inl (filled_evict filled.1 filled.2)
    · right
      intro id isVisited isNear
      rw [visited_evict] at isVisited ⊢
      rw [candidates_evict]
      rcases explores id isVisited isNear with ⟨found, rest⟩
      refine ⟨?_, rest⟩
      rcases List.mem_map.mp found with ⟨item, isIn, rfl⟩
      have itemNear : near item.dist := (ordered.found item isIn).near_iff.mp isNear
      rw [Beam.evict, if_pos tooMany]
      dsimp only
      rw [split] at isIn ⊢
      rw [List.dropLast_concat]
      rcases List.mem_append.mp isIn with before | same
      · exact List.mem_map_of_mem before
      · exact absurd (List.mem_singleton.mp same ▸ itemNear) lastNear
  · right
    rw [Beam.evict, if_neg tooMany]
    exact explores

/-- An offered neighbour keeps the beam filled, or keeps what it explores. -/
theorem offer_explores (ordered : BeamOrdered numbers index query beam)
    (closed : ∀ left right, left ≤ right → near right → near left) (positive : 0 < ef)
    (before : beam.Filled near ef ∨ Explores numbers index query near lists except beam)
    (neighbour : Uuid) :
    (index.offer numbers query ef beam neighbour).Filled near ef ∨
      Explores numbers index query near lists except
        (index.offer numbers query ef beam neighbour) := by
  unfold HnswIndex.offer
  split
  · exact before
  · cases found : index.vectors.lookup neighbour with
    | none =>
        refine before.imp id fun explores => explores_visit explores ?_
        rintro ⟨vector, isVector, -⟩
        rw [found] at isVector
        cases isVector
    | some vector =>
        let item : Item Distance := ⟨numbers.euclidean query vector, neighbour⟩
        have measured : Measured numbers index (fun _ => True) query item :=
          ⟨trivial, vector, found, rfl⟩
        dsimp only
        split
        · next wanted =>
            rcases before with filled | explores
            · have visited : (beam.visit neighbour).Filled near ef := filled
              exact .inl (visited.push (visited.near_of_wants closed positive wanted))
            · have pushed : Explores numbers index query near lists except
                  ((beam.visit item.id).push item) := explores_push explores
              exact explores_evict ((ordered.visit item.id).push measured) closed pushed
        · next unwanted =>
            rcases before with filled | explores
            · exact .inl filled
            · by_cases itemNear : near item.dist
              · left
                rcases not_or.mp unwanted with ⟨notNearer, notFew⟩
                push Not at notNearer
                rcases notNearer with ⟨worst, isWorst, nearest⟩
                exact (ordered.visit neighbour).filled closed (Nat.le_of_not_lt notFew) isWorst
                  (closed _ _ nearest itemNear)
              · refine .inr (explores_visit explores fun isNear => ?_)
                exact itemNear (measured.near_iff.mp isNear)

theorem offers_explores (ordered : BeamOrdered numbers index query beam)
    (closed : ∀ left right, left ≤ right → near right → near left) (positive : 0 < ef)
    (before : beam.Filled near ef ∨ Explores numbers index query near lists except beam)
    (neighbours : List Uuid) :
    (neighbours.foldl (index.offer numbers query ef) beam).Filled near ef ∨
      Explores numbers index query near lists except
        (neighbours.foldl (index.offer numbers query ef) beam) := by
  induction neighbours generalizing beam with
  | nil => exact before
  | cons neighbour neighbours induction =>
      apply induction (ordered.offer ef neighbour)
      exact offer_explores ordered closed positive before neighbour

theorem visited_offer (beam : Beam Distance) (neighbour : Uuid) :
    beam.visited ⊆ (index.offer numbers query ef beam neighbour).visited ∧
      neighbour ∈ (index.offer numbers query ef beam neighbour).visited := by
  unfold HnswIndex.offer
  split
  · next seen => exact ⟨List.Subset.refl _, seen⟩
  · have added : beam.visited ⊆ (beam.visit neighbour).visited ∧
        neighbour ∈ (beam.visit neighbour).visited :=
      ⟨List.subset_cons_self _ _, List.mem_cons_self⟩
    split
    · exact added
    · dsimp only
      split
      · rw [visited_evict]
        exact added
      · exact added

theorem visited_offers (beam : Beam Distance) (neighbours : List Uuid) :
    beam.visited ⊆ (neighbours.foldl (index.offer numbers query ef) beam).visited ∧
      neighbours ⊆ (neighbours.foldl (index.offer numbers query ef) beam).visited := by
  induction neighbours generalizing beam with
  | nil => exact ⟨List.Subset.refl _, List.nil_subset _⟩
  | cons neighbour neighbours induction =>
      have first : beam.visited ⊆ (index.offer numbers query ef beam neighbour).visited ∧ _ :=
        visited_offer beam neighbour
      rcases induction (index.offer numbers query ef beam neighbour) with ⟨kept, others⟩
      exact ⟨List.Subset.trans first.1 kept, List.cons_subset.mpr ⟨kept first.2, others⟩⟩

/-- The expansion of a candidate keeps the beam filled, or keeps what it explores. -/
theorem expand_explores {current : Item Distance} {rest : List (Item Distance)}
    (ordered : BeamOrdered numbers index query beam)
    (closed : ∀ left right, left ≤ right → near right → near left) (positive : 0 < ef)
    (before : beam.Filled near ef ∨
      Explores numbers index query near lists (fun _ => False) beam)
    (next : beam.candidates = current :: rest) :
    ((lists.bucket current.id).foldl (index.offer numbers query ef)
        { beam with candidates := rest }).Filled near ef ∨
      Explores numbers index query near lists (fun _ => False)
        ((lists.bucket current.id).foldl (index.offer numbers query ef)
          { beam with candidates := rest }) := by
  -- While its neighbours are offered, the candidate itself is excepted.
  have popped : Beam.Filled { beam with candidates := rest } near ef ∨
      Explores numbers index query near lists (· = current.id)
        { beam with candidates := rest } := by
    refine before.imp id fun explores id isVisited isNear => ?_
    rcases explores id isVisited isNear with ⟨found, waiting | expanded | none⟩
    · rw [next, List.map_cons] at waiting
      rcases List.mem_cons.mp waiting with same | isRest
      · exact ⟨found, .inr (.inr same)⟩
      · exact ⟨found, .inl isRest⟩
    · exact ⟨found, .inr (.inl expanded)⟩
    · exact none.elim
  have visited : beam.visited ⊆ _ ∧ lists.bucket current.id ⊆
      ((lists.bucket current.id).foldl (index.offer numbers query ef)
        { beam with candidates := rest }).visited :=
    visited_offers { beam with candidates := rest } _
  apply (offers_explores (ordered.pop next) closed positive popped _).imp id
  intro explores id isVisited isNear
  rcases explores id isVisited isNear with ⟨found, waiting | expanded | rfl⟩
  · exact ⟨found, .inl waiting⟩
  · exact ⟨found, .inr (.inl expanded)⟩
  · exact ⟨found, .inr (.inl visited.2)⟩

/-- While a near candidate waits, the nearest one is near. -/
theorem BeamOrdered.near_of_waiting (ordered : BeamOrdered numbers index query beam)
    (closed : ∀ left right, left ≤ right → near right → near left)
    {current : Item Distance} {rest : List (Item Distance)}
    (next : beam.candidates = current :: rest) {item : Item Distance}
    (isIn : item ∈ beam.candidates) (isNear : near item.dist) : near current.dist := by
  have sorted := ordered.candidates
  rw [next] at isIn sorted
  rcases List.mem_cons.mp isIn with rfl | isRest
  · exact isNear
  · exact closed _ _ (List.rel_of_pairwise_cons sorted isRest).dist_le isNear

/-- When a search ends with a beam that is not filled, no candidate is near. -/
theorem Beam.Ended.far (ended : beam.Ended ef) (ordered : BeamOrdered numbers index query beam)
    (closed : ∀ left right, left ≤ right → near right → near left)
    (notFilled : ¬beam.Filled near ef) : ∀ item ∈ beam.candidates, ¬near item.dist := by
  intro item isIn itemNear
  rcases List.exists_cons_of_ne_nil (List.ne_nil_of_mem isIn) with ⟨current, rest, next⟩
  rcases ended current (by rw [next]; rfl) with ⟨⟨worst, isWorst, farther⟩, enough⟩
  -- The nearest candidate is near, and the worst result nearer.
  have currentNear : near current.dist := ordered.near_of_waiting closed next isIn itemNear
  exact notFilled (ordered.filled closed enough isWorst (closed _ _ farther.le currentNear))

theorem Explores.expanded (explores : Explores numbers index query near lists (fun _ => False) beam)
    (ordered : BeamOrdered numbers index query beam)
    (far : ∀ item ∈ beam.candidates, ¬near item.dist) {id : Uuid}
    (isVisited : id ∈ beam.visited) (isNear : Near numbers index query near id) :
    lists.bucket id ⊆ beam.visited := by
  rcases explores id isVisited isNear with ⟨-, waiting | expanded | none⟩
  · rcases List.mem_map.mp waiting with ⟨item, isIn, rfl⟩
    exact absurd ((ordered.near item isIn).near_iff.mp isNear) (far item isIn)
  · exact expanded
  · exact none.elim

end Beam

theorem length_result_offers (neighbours : List Uuid) {beam : Beam Distance} {query : List Coord}
    {ef : Nat} (short : beam.result.length ≤ ef) :
    (neighbours.foldl (index.offer numbers query ef) beam).result.length ≤ ef := by
  induction neighbours generalizing beam with
  | nil => exact short
  | cons neighbour neighbours induction =>
      apply induction
      unfold HnswIndex.offer
      split
      · exact short
      · split
        · exact short
        · dsimp only
          split
          · unfold Beam.evict
            split
            · rw [List.length_dropLast, Beam.push, List.orderedInsert_length]
              exact short
            · next few => exact Nat.le_of_not_lt few
          · exact short

/-- The near neighbours of a node in the lowest layer. -/
def nearNeighbours (numbers : Numbers Coord Distance Recall) (index : HnswIndex Coord)
    (query : List Coord) (near : Distance → Prop) [DecidablePred near] (node : Uuid) : List Uuid :=
  (neighbours index node).filter fun other => Near numbers index query near other

omit [LinearOrder Distance] in
theorem near_of_reaches {query : List Coord} {near : Distance → Prop} [DecidablePred near]
    {start node : Uuid} (startNear : Near numbers index query near start)
    (reaches : Reaches (nearNeighbours numbers index query near) start node) :
    Near numbers index query near node := by
  rcases Relation.ReflTransGen.cases_tail reaches with rfl | ⟨_, -, isEdge⟩
  · exact startNear
  · exact of_decide_eq_true (List.mem_filter.mp isEdge).2

/-- If no candidate is near, all nodes that near nodes lead to are results. -/
theorem Explores.reached {query : List Coord} {near : Distance → Prop} [DecidablePred near]
    {beam : Beam Distance} {lists : Layer} (isLayer : index.layers[0]? = some lists)
    (explores : Explores numbers index query near lists (fun _ => False) beam)
    (ordered : BeamOrdered numbers index query beam)
    (far : ∀ item ∈ beam.candidates, ¬near item.dist) {start node : Uuid}
    (startVisited : start ∈ beam.visited) (startNear : Near numbers index query near start)
    (reaches : Reaches (nearNeighbours numbers index query near) start node) :
    node ∈ beam.result.map Item.id := by
  have isHead : index.layers.headD ∅ = lists := by
    rw [List.headD_eq_head?_getD, List.head?_eq_getElem?, isLayer, Option.getD_some]
  have visited : node ∈ beam.visited ∧ Near numbers index query near node := by
    induction reaches with
    | refl => exact ⟨startVisited, startNear⟩
    | tail _ isEdge induction =>
        rcases List.mem_filter.mp isEdge with ⟨isNeighbour, isNear⟩
        rw [neighbours, isHead] at isNeighbour
        exact ⟨explores.expanded ordered far induction.1 induction.2 isNeighbour,
          of_decide_eq_true isNear⟩
  exact (explores node visited.1 visited.2).1

/-- Near results that are enough leave no place for others. -/
theorem BeamOrdered.filled_of_masking {query : List Coord} {near : Distance → Prop}
    {beam : Beam Distance} {ef : Nat} (ordered : BeamOrdered numbers index query beam)
    (short : beam.result.length ≤ ef) {masking : List Uuid} (distinct : masking.Nodup)
    (enough : ef ≤ masking.length) (allNear : ∀ id ∈ masking, Near numbers index query near id)
    (all : masking ⊆ beam.result.map Item.id) : beam.Filled near ef := by
  have places := (distinct.subperm all).length_le
  rw [List.length_map] at places
  refine ⟨enough.trans places, fun item isIn => ?_⟩
  by_contra far
  have others : masking ⊆ (beam.result.map Item.id).erase item.id := by
    intro id isMasking
    apply (List.mem_erase_of_ne _).mpr (all isMasking)
    rintro rfl
    exact far ((ordered.found item isIn).near_iff.mp (allNear _ isMasking))
  have fewer := (distinct.subperm others).length_le
  rw [List.length_erase_of_mem (List.mem_map_of_mem isIn), List.length_map] at fewer
  have some := List.length_pos_of_mem isIn
  omega

/-! ## The search of the lowest layer -/

section LowestLayer

variable {query : List Coord} {near : Distance → Prop} [DecidablePred near]
variable {start : Item Distance} {ef : Nat} {items : List (Item Distance)}

/-- What a search from one node keeps: it explores near nodes until they fill the beam. -/
structure Exploring (numbers : Numbers Coord Distance Recall) (index : HnswIndex Coord)
    (query : List Coord) (near : Distance → Prop) (lists : Layer) (start : Uuid) (ef : Nat)
    (beam : Beam Distance) : Prop where
  ordered : BeamOrdered numbers index query beam
  visited : start ∈ beam.visited
  short : beam.result.length ≤ ef
  outcome : beam.Filled near ef ∨ Explores numbers index query near lists (fun _ => False) beam

omit [DecidablePred near] in
theorem exploring_start (lists : Layer) (positive : 0 < ef)
    (measured : Measured numbers index (fun _ => True) query start) :
    Exploring numbers index query near lists start.id ef (Beam.start [start]) where
  ordered := .start fun item isIn => List.mem_singleton.mp isIn ▸ measured
  visited := List.mem_cons_self
  short := positive
  outcome := by
    have nothing : Explores numbers index query near lists (fun _ => False)
        (⟨[], [], []⟩ : Beam Distance) := fun _ isIn => nomatch isIn
    exact .inr (explores_push nothing)

omit [DecidablePred near] in
theorem Exploring.expand {lists : Layer} {id : Uuid} {beam : Beam Distance}
    {current : Item Distance} {rest : List (Item Distance)}
    (exploring : Exploring numbers index query near lists id ef beam)
    (closed : ∀ left right, left ≤ right → near right → near left) (positive : 0 < ef)
    (next : beam.candidates = current :: rest) :
    Exploring numbers index query near lists id ef
      ((lists.bucket current.id).foldl (index.offer numbers query ef)
        { beam with candidates := rest }) where
  ordered := (exploring.ordered.pop next).offers ef _
  visited := (visited_offers { beam with candidates := rest } _).1 exploring.visited
  short := length_result_offers _ exploring.short
  outcome := expand_explores exploring.ordered closed positive exploring.outcome next

/-- A search finds nodes that a set contains which no edge leaves. -/
theorem searchLayer_within {inside : Uuid → Prop} (inRange : 0 < index.layers.length)
    (closed : ∀ node, inside node → ∀ other ∈ neighbours index node, inside other)
    (startIn : inside start.id)
    (ran : index.searchLayer numbers query [start] ef 0 = some items) :
    (items.map Item.id).Nodup ∧ ∀ item ∈ items, inside item.id := by
  have isLayer : index.layers[0]? = some index.layers[0] := List.getElem?_eq_getElem inRange
  have isHead : index.layers.headD ∅ = index.layers[0] := by
    rw [List.headD_eq_head?_getD, List.head?_eq_getElem?, isLayer, Option.getD_some]
  have initial : BeamIn inside (Beam.start [start]) :=
    .start fun item isIn => List.mem_singleton.mp isIn ▸ startIn
  have ended : ∃ last, BeamIn inside last ∧ last.Ended ef ∧ items = last.result := by
    apply beamLoop_invariant isLayer _ initial ran
    intro beam current rest sound next _
    have isCandidate : current ∈ beam.candidates := next ▸ List.mem_cons_self
    have popped : BeamIn inside { beam with candidates := rest } :=
      { sound with candidates := fun item isIn =>
          sound.candidates item (next ▸ List.mem_cons_of_mem _ isIn) }
    refine (offers_spec popped fun other isIn _ => ?_).1
    apply closed current.id (sound.candidates current isCandidate)
    rw [neighbours, isHead]
    exact isIn
  rcases ended with ⟨last, sound, -, rfl⟩
  exact ⟨sound.nodup, sound.result⟩

/-- A search returns as many near nodes as it may return, or every node that it can reach
over near nodes. -/
theorem searchLayer_finds (inRange : 0 < index.layers.length)
    (closed : ∀ left right, left ≤ right → near right → near left) (positive : 0 < ef)
    (measured : Measured numbers index (fun _ => True) query start) (startNear : near start.dist)
    (ran : index.searchLayer numbers query [start] ef 0 = some items) :
    (ef ≤ items.length ∧ ∀ item ∈ items, near item.dist) ∨
      ∀ node, Reaches (nearNeighbours numbers index query near) start.id node →
        node ∈ items.map Item.id := by
  have isLayer : index.layers[0]? = some index.layers[0] := List.getElem?_eq_getElem inRange
  have ended : ∃ last, Exploring numbers index query near index.layers[0] start.id ef last ∧
      last.Ended ef ∧ items = last.result :=
    beamLoop_invariant isLayer
      (fun _ _ _ exploring next _ => exploring.expand closed positive next)
      (exploring_start _ positive measured) ran
  rcases ended with ⟨last, exploring, ended, rfl⟩
  by_cases filled : last.Filled near ef
  · exact .inl filled
  · right
    intro node reaches
    have far := ended.far exploring.ordered closed filled
    exact (exploring.outcome.resolve_left filled).reached isLayer exploring.ordered far
      exploring.visited (measured.near_iff.mpr startNear) reaches

/-- If near nodes lead to enough nodes, a search expands no other ones. -/
theorem Exploring.near_of_further {lists : Layer} {id : Uuid} {beam : Beam Distance}
    {current : Item Distance} {rest : List (Item Distance)}
    (exploring : Exploring numbers index query near lists id ef beam)
    (isLayer : index.layers[0]? = some lists)
    (closed : ∀ left right, left ≤ right → near right → near left) (positive : 0 < ef)
    (startNear : Near numbers index query near id) {masking : List Uuid}
    (distinct : masking.Nodup) (enough : ef ≤ masking.length)
    (reached : ∀ other ∈ masking, Reaches (nearNeighbours numbers index query near) id other)
    (next : beam.candidates = current :: rest) (further : ¬beam.IsDone current ef) :
    near current.dist := by
  by_contra currentFar
  have far : ∀ item ∈ beam.candidates, ¬near item.dist := fun item isIn isNear =>
    currentFar (exploring.ordered.near_of_waiting closed next isIn isNear)
  have filled : beam.Filled near ef := by
    rcases exploring.outcome with filled | explores
    · exact filled
    · refine exploring.ordered.filled_of_masking exploring.short distinct enough
        (fun other isIn => near_of_reaches startNear (reached other isIn)) fun other isIn => ?_
      exact explores.reached isLayer exploring.ordered far exploring.visited startNear
        (reached other isIn)
  have nonempty : beam.result ≠ [] := List.ne_nil_of_length_pos (positive.trans_le filled.1)
  have isWorst : (beam.result.getLast nonempty).dist ∈ beam.worst := by
    rw [Beam.worst, List.getLast?_eq_some_getLast nonempty]
    rfl
  refine further ⟨⟨_, isWorst, lt_of_not_ge fun nearest => currentFar ?_⟩, filled.1⟩
  exact closed _ _ nearest (filled.2 _ (List.getLast_mem nonempty))

/-- If near nodes lead to enough nodes, a search returns as many of them as it may. -/
theorem searchLayer_of_masking (inRange : 0 < index.layers.length)
    (closed : ∀ left right, left ≤ right → near right → near left) (positive : 0 < ef)
    (measured : Measured numbers index (fun _ => True) query start) (startNear : near start.dist)
    {masking : List Uuid} (distinct : masking.Nodup) (enough : ef ≤ masking.length)
    (reached : ∀ id ∈ masking, Reaches (nearNeighbours numbers index query near) start.id id)
    (ran : index.searchLayer numbers query [start] ef 0 = some items) :
    ef ≤ items.length ∧ (items.map Item.id).Nodup ∧
      ∀ item ∈ items, Reaches (nearNeighbours numbers index query near) start.id item.id := by
  have isLayer : index.layers[0]? = some index.layers[0] := List.getElem?_eq_getElem inRange
  have isHead : index.layers.headD ∅ = index.layers[0] := by
    rw [List.headD_eq_head?_getD, List.head?_eq_getElem?, isLayer, Option.getD_some]
  have isNear : Near numbers index query near start.id := measured.near_iff.mpr startNear
  let inside (id : Uuid) : Prop := Near numbers index query near id →
    Reaches (nearNeighbours numbers index query near) start.id id
  have initial : BeamIn inside (Beam.start [start]) :=
    .start fun item isIn => List.mem_singleton.mp isIn ▸ fun _ => .refl
  have ended : ∃ last, (Exploring numbers index query near index.layers[0] start.id ef last ∧
      BeamIn inside last) ∧ last.Ended ef ∧ items = last.result := by
    apply beamLoop_invariant isLayer _ ⟨exploring_start _ positive measured, initial⟩ ran
    rintro beam current rest ⟨exploring, sound⟩ next further
    refine ⟨exploring.expand closed positive next, ?_⟩
    have isCandidate : current ∈ beam.candidates := next ▸ List.mem_cons_self
    have currentNear : near current.dist := exploring.near_of_further isLayer closed positive
      isNear distinct enough reached next further
    have way := sound.candidates current isCandidate
      ((exploring.ordered.near current isCandidate).near_iff.mpr currentNear)
    have popped : BeamIn inside { beam with candidates := rest } :=
      { sound with candidates := fun item isIn =>
          sound.candidates item (next ▸ List.mem_cons_of_mem _ isIn) }
    have isNeighbour : index.layers[0].bucket current.id = neighbours index current.id := by
      rw [neighbours, isHead]
    refine (offers_spec popped fun other isIn _ otherNear => way.tail ?_).1
    exact List.mem_filter.mpr ⟨isNeighbour ▸ isIn, decide_eq_true otherNear⟩
  rcases ended with ⟨last, ⟨exploring, sound⟩, ended, rfl⟩
  have filled : last.Filled near ef := by
    by_contra notFilled
    have far := ended.far exploring.ordered closed notFilled
    refine notFilled (exploring.ordered.filled_of_masking exploring.short distinct enough
      (fun other isIn => near_of_reaches isNear (reached other isIn)) fun other isIn => ?_)
    exact (exploring.outcome.resolve_left notFilled).reached isLayer exploring.ordered far
      exploring.visited isNear (reached other isIn)
  refine ⟨filled.1, sound.nodup, fun item isIn => sound.result item isIn ?_⟩
  exact (exploring.ordered.found item isIn).near_iff.mpr (filled.2 item isIn)

end LowestLayer

/-! ## The descent -/

/-- The item is the old one, or it is nearer and not deleted. -/
def Improves (index : HnswIndex Coord) (item better : Item Distance) : Prop :=
  better = item ∨ better.id ∉ index.tombstones ∧ better.dist < item.dist

section Descent

variable {query : List Coord} {item : Item Distance}

theorem Improves.trans {better best : Item Distance} (first : Improves index item better)
    (second : Improves index better best) : Improves index item best := by
  rcases second with rfl | ⟨alive, nearer⟩
  · exact first
  · rcases first with rfl | ⟨-, near⟩
    · exact .inr ⟨alive, nearer⟩
    · exact .inr ⟨alive, nearer.trans near⟩

theorem greedyStep_improves (neighbour : Uuid) :
    Improves index item (index.greedyStep numbers query item neighbour) := by
  unfold HnswIndex.greedyStep
  split
  · exact .inl rfl
  · next alive =>
      split
      · exact .inl rfl
      · dsimp only
        split
        · next nearer => exact .inr ⟨alive, nearer⟩
        · exact .inl rfl

theorem greedySteps_improve (neighbours : List Uuid) :
    Improves index item (neighbours.foldl (index.greedyStep numbers query) item) := by
  induction neighbours generalizing item with
  | nil => exact .inl rfl
  | cons neighbour neighbours induction => exact (greedyStep_improves neighbour).trans induction

theorem greedyLoop_improves {layer fuel : Nat} {id : Uuid}
    (measured : Measured numbers index (fun _ => True) query item)
    (ran : index.greedyLoop numbers query layer fuel item = some id) :
    ∃ better, better.id = id ∧ Measured numbers index (fun _ => True) query better ∧
      Improves index item better := by
  induction fuel generalizing item with
  | zero => cases ran
  | succ fuel induction =>
      rw [HnswIndex.greedyLoop] at ran
      split at ran
      · cases ran
      · next lists isLayer =>
          have improves : Improves index item ((lists.bucket item.id).foldl
              (index.greedyStep numbers query) item) := greedySteps_improve _
          have next : Measured numbers index (fun _ => True) query ((lists.bucket item.id).foldl
              (index.greedyStep numbers query) item) :=
            measured_greedySteps measured fun _ _ _ => trivial
          dsimp only at ran
          split at ran
          · rcases induction next ran with ⟨better, same, measuredBetter, further⟩
            exact ⟨better, same, measuredBetter, improves.trans further⟩
          · cases ran
            exact ⟨_, rfl, next, improves⟩

theorem greedySearchLayer_improves {layer : Nat} {id : Uuid}
    (measured : Measured numbers index (fun _ => True) query item)
    (ran : index.greedySearchLayer numbers query item.id layer = some id) :
    ∃ better, better.id = id ∧ Measured numbers index (fun _ => True) query better ∧
      Improves index item better := by
  rcases measured.dist with ⟨vector, found, same⟩
  rw [HnswIndex.greedySearchLayer, found] at ran
  dsimp only at ran
  rw [← same] at ran
  exact greedyLoop_improves measured ran

/-- The descent ends at the entry point, or at a node that is nearer and not deleted. -/
theorem descend_improves {top bottom : Nat} {id : Uuid}
    (measured : Measured numbers index (fun _ => True) query item)
    (ran : index.descend numbers query item.id top bottom = some id) :
    ∃ better, better.id = id ∧ Measured numbers index (fun _ => True) query better ∧
      Improves index item better := by
  unfold HnswIndex.descend at ran
  generalize (List.range' bottom (top + 1 - bottom)).reverse = places at ran
  induction places generalizing item with
  | nil =>
      cases ran
      exact ⟨item, rfl, measured, .inl rfl⟩
  | cons place places induction =>
      rw [List.foldlM_cons] at ran
      rcases Option.bind_eq_some_iff.mp ran with ⟨middle, first, rest⟩
      rcases greedySearchLayer_improves measured first with ⟨better, rfl, next, improves⟩
      rcases induction next rest with ⟨best, same, last, further⟩
      exact ⟨best, same, last, improves.trans further⟩

end Descent

/-- The descent from an entry point for a query ends at the node. -/
def Lands (numbers : Numbers Coord Distance Recall) (index : HnswIndex Coord)
    (entryPoint : Option (Uuid × Nat)) (query : List Coord) (start : Uuid) : Prop :=
  ∃ entry layer, entryPoint = some (entry, layer) ∧
    index.descend numbers query entry layer 1 = some start

omit [LinearOrder Distance] in
theorem searchEf_pos (numbers : Numbers Coord Distance Recall) (k : Nat) (recallTarget : Recall) :
    0 < HnswIndex.searchEf numbers k recallTarget := by
  unfold HnswIndex.searchEf
  split <;> omega

end FunDB.Hnsw
