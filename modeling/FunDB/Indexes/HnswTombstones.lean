import FunDB.Indexes.HnswExploration

/-! # Deleted nodes in the results of the HNSW index

Deleted nodes take up places in the beam, and are dropped from the results only
afterwards. -/

namespace FunDB.Hnsw

open FallibleRuns GraphSearch

variable {Coord Distance Recall : Type} [LinearOrder Distance]
variable {numbers : Numbers Coord Distance Recall} {index : HnswIndex Coord}

/-! ## Searches that find a live node -/

/-- Fewer nodes than the number are of the kind. -/
def Fewer (number : Nat) (kind : Uuid → Prop) : Prop :=
  ∀ ids : List Uuid, ids.Nodup → (∀ id ∈ ids, kind id) → ids.length < number

/-- Where the descent ends, a live node can be reached over nodes within some distance, and
the deleted nodes within it that can be reached at all are fewer than the beam takes. If
nodes within it lead to as many nodes as the beam takes, only deleted ones among these count. -/
def Unmasked (numbers : Numbers Coord Distance Recall) (index : HnswIndex Coord)
    (query : List Coord) (ef : Nat) : Prop :=
  ∃ start bound, Lands numbers index index.entryPoint query start ∧
    Near numbers index query (· ≤ bound) start ∧
    (∃ node, Reaches (nearNeighbours numbers index query (· ≤ bound)) start node ∧
      node ∉ index.tombstones) ∧
    (Fewer ef (fun id => id ∈ index.tombstones ∧ Near numbers index query (· ≤ bound) id ∧
        Reaches (neighbours index) start id) ∨
      ¬Fewer ef (Reaches (nearNeighbours numbers index query (· ≤ bound)) start) ∧
      Fewer ef (fun id => id ∈ index.tombstones ∧
        Reaches (nearNeighbours numbers index query (· ≤ bound)) start id))

omit [LinearOrder Distance] in
/-- Different nodes of which fewer are deleted are not all deleted. -/
theorem Fewer.exists_live {kind : Uuid → Prop} {number : Nat} {items : List (Item Distance)}
    (fewer : Fewer number fun id => id ∈ index.tombstones ∧ kind id)
    (distinct : (items.map Item.id).Nodup) (all : ∀ item ∈ items, kind item.id)
    (enough : number ≤ items.length) : ∃ item ∈ items, item.id ∉ index.tombstones := by
  by_contra none
  push Not at none
  have less := fewer (items.map Item.id) distinct fun id isId => by
    rcases List.mem_map.mp isId with ⟨item, isIn, rfl⟩
    exact ⟨none item isIn, all item isIn⟩
  rw [List.length_map] at less
  omega

/-- A beam search from a start within the distance finds a live node. -/
theorem searchLayer_finds_live {query : List Coord} {bound : Distance} {start : Item Distance}
    {ef : Nat} {items : List (Item Distance)} {node : Uuid} (inRange : 0 < index.layers.length)
    (positive : 0 < ef) (measured : Measured numbers index (fun _ => True) query start)
    (startNear : start.dist ≤ bound)
    (reaches : Reaches (nearNeighbours numbers index query (· ≤ bound)) start.id node)
    (alive : node ∉ index.tombstones)
    (few : Fewer ef fun id => id ∈ index.tombstones ∧ Near numbers index query (· ≤ bound) id ∧
      Reaches (neighbours index) start.id id)
    (ran : index.searchLayer numbers query [start] ef 0 = some items) :
    ∃ item ∈ items, item.id ∉ index.tombstones := by
  have found : (ef ≤ items.length ∧ ∀ item ∈ items, item.dist ≤ bound) ∨ _ :=
    searchLayer_finds inRange (fun _ _ => le_trans) positive measured startNear ran
  rcases found with ⟨enough, allNear⟩ | all
  · have within : (items.map Item.id).Nodup ∧
        ∀ item ∈ items, Reaches (neighbours index) start.id item.id :=
      searchLayer_within inRange (fun _ way _ isEdge => way.tail isEdge) .refl ran
    have ordered : items.Pairwise Item.Le ∧
        ∀ item ∈ items, Measured numbers index (fun _ => True) query item :=
      ordered_searchLayer (List.getElem?_eq_getElem inRange)
        (fun item isIn => List.mem_singleton.mp isIn ▸ measured) ran
    apply few.exists_live within.1 _ enough
    exact fun item isIn =>
      ⟨(ordered.2 item isIn).near_iff.mpr (allNear item isIn), within.2 item isIn⟩
  · rcases List.mem_map.mp (all node reaches) with ⟨item, isIn, rfl⟩
    exact ⟨item, isIn, alive⟩

/-- A search finds nothing if every live node is farther than deleted nodes that fill the
beam. -/
theorem search_masked {dims m efConstruction : Nat} {calls : List (IndexCall Coord)}
    (ran : attempt (HnswIndex.perform numbers) (.new dims m efConstruction) calls = some index)
    (query : List Coord) (k : Nat) (recallTarget : Recall) {entry : Uuid} {layer : Nat}
    {bound : Distance} (isEntry : index.entryPoint = some (entry, layer))
    (entryNear : Near numbers index query (· < bound) entry)
    (farther : ∀ id, Live index id → ¬Near numbers index query (· < bound) id)
    {masking : List Uuid} (distinct : masking.Nodup)
    (reached : ∀ id ∈ masking, Reaches (nearNeighbours numbers index query (· < bound)) entry id)
    (enough : HnswIndex.searchEf numbers k recallTarget ≤ masking.length) :
    index.search numbers query k recallTarget = some [] := by
  have ready : Ready index := ready_of_run ran
  have inRange : 0 < index.layers.length := Nat.zero_lt_of_lt (ready.entry entry layer isEntry).2
  rcases search_returns numbers ready.entry query k recallTarget with ⟨results, searched⟩
  rw [searched]
  rcases search_cases searched with ⟨-, rfl⟩ | found
  · rfl
  · rcases found with ⟨_, _, start, vector, items, sameEntry, -, descended, isVector, ranLayer, rfl⟩
    cases isEntry.symm.trans sameEntry
    rcases entryNear with ⟨entryVector, entryFound, entryWithin⟩
    have measured : Measured numbers index (fun _ => True) query
        ⟨numbers.euclidean query entryVector, entry⟩ := ⟨trivial, entryVector, entryFound, rfl⟩
    -- The descent stays at the entry point, because a nearer node would be live.
    have stays : start = entry := by
      rcases descend_improves measured descended with ⟨better, rfl, measuredBetter, improves⟩
      rcases improves with rfl | ⟨alive, nearer⟩
      · rfl
      · have isNear : Near numbers index query (· < bound) better.id :=
          measuredBetter.near_iff.mpr (nearer.trans entryWithin)
        exact absurd isNear (farther better.id ⟨isNear.stored, alive⟩)
    subst stays
    cases entryFound.symm.trans isVector
    have all : _ ∧ _ ∧ ∀ item ∈ items,
        Reaches (nearNeighbours numbers index query (· < bound)) start item.id :=
      searchLayer_of_masking inRange (fun _ _ => lt_of_le_of_lt)
        (searchEf_pos numbers k recallTarget) measured entryWithin distinct enough reached ranLayer
    have none : items.filter (fun item => item.id ∉ index.tombstones) = [] := by
      apply List.filter_eq_nil_iff.mpr
      intro item isIn alive
      have isNear : Near numbers index query (· < bound) item.id :=
        near_of_reaches (measured.near_iff.mpr entryWithin) (all.2.2 item isIn)
      exact farther item.id ⟨isNear.stored, of_decide_eq_true alive⟩ isNear
    rw [none, List.take_nil, List.map_nil]

/-! ## Sixteen deleted nodes -/

/-- Points on a line, in one layer. -/
def lineNumbers : Numbers ℤ ℤ Unit where
  euclidean left right := (left.headD 0 - right.headD 0).natAbs
  randomLayer _ _ := 0
  isHigh _ := false
  efAdaptive k _ := k

/-- The end of a line and points that halve its length, of which all but the farthest
are deleted. -/
def lineCalls : List (IndexCall ℤ) :=
  .insert (.ofByte 0) [0] ::
    (List.range 16).map (fun place => .insert (.ofByte (.ofNat (16 - place))) [2 ^ (16 - place)]) ++
    (List.range 16).map fun place => .delete (.ofByte (.ofNat place))

def lineIndex : HnswIndex ℤ :=
  (attempt (HnswIndex.perform lineNumbers) (.new 1 32 1) lineCalls).get
    (isSome_run lineNumbers 1 32 1 lineCalls)

theorem ran_line :
    attempt (HnswIndex.perform lineNumbers) (.new 1 32 1) lineCalls = some lineIndex :=
  (Option.some_get _).symm

/-- The farthest point is live and next to the entry point, which is the nearest one. -/
theorem line_facts :
    (lineIndex.entryPoint = some (.ofByte 0, 0) ∧
      Near lineNumbers lineIndex [0] (· ≤ 65536) (.ofByte 0) ∧
      Uuid.ofByte 16 ∈ neighbours lineIndex (.ofByte 0) ∧
      Uuid.ofByte 16 ∈ nearNeighbours lineNumbers lineIndex [0] (· ≤ 65536) (.ofByte 0) ∧
      Uuid.ofByte 16 ∈ lineIndex.vectors ∧ Uuid.ofByte 16 ∉ lineIndex.tombstones) ∧
    lineIndex.tombstones.length < HnswIndex.searchEf lineNumbers 9 () ∧
    lineIndex.search lineNumbers [0] 1 () = some [] := by
  decide +kernel

end FunDB.Hnsw
