import FunDB.Indexes.HnswExploration

/-! # Compaction of the HNSW index

When every node that is not deleted can still be reached afterwards, and a search with
room for all nodes returns it. -/

namespace FunDB.Hnsw

open FallibleRuns GraphSearch

variable {Coord Distance Recall : Type} [LinearOrder Distance]
variable {numbers : Numbers Coord Distance Recall} {index : HnswIndex Coord} {order : KeyOrder}

/-! ## The graph after compaction -/

/-- Every live node can be reached. -/
def AllFindable (index : HnswIndex Coord) : Prop := ∀ node, Live index node → Findable index node

/-- The neighbours of a node that is not deleted which are not deleted either. -/
def keptNeighbours (index : HnswIndex Coord) (node : Uuid) : List Uuid :=
  if node ∈ index.tombstones then [] else (neighbours index node).filter (· ∉ index.tombstones)

/-- The entry point, if it is not deleted, and else the node that is chosen for it
among those that are left. -/
def nextEntry (index : HnswIndex Coord) (order : KeyOrder) : Option (Uuid × Nat) :=
  index.entryPoint.bind fun entryPoint =>
    if entryPoint.1 ∈ index.tombstones then
      HnswIndex.survivor order (index.layers.map (·.purge index.tombstones))
    else some entryPoint

omit [LinearOrder Distance] in
theorem neighbours_compact : neighbours (index.compact order) = keptNeighbours index := by
  funext node
  by_cases none : index.tombstones = []
  · rw [compact_of_none none, keptNeighbours, none]
    simp
  · rw [HnswIndex.compact, if_neg none]
    unfold keptNeighbours neighbours
    cases index.layers with
    | nil => simp [Buckets.bucket_empty]
    | cons lists layers => exact bucket_purge lists index.tombstones node

theorem entryPoint_compact : (index.compact order).entryPoint = nextEntry index order := by
  unfold nextEntry
  by_cases none : index.tombstones = []
  · rw [compact_of_none none, none]
    simp
  · rw [HnswIndex.compact, if_neg none]
    cases index.entryPoint with
    | none => rfl
    | some entryPoint => rfl

theorem nextEntry_alive {entry : Uuid} {layer : Nat}
    (isNext : nextEntry index order = some (entry, layer)) : entry ∉ index.tombstones := by
  rcases Option.bind_eq_some_iff.mp isNext with ⟨old, -, chosen⟩
  split at chosen
  · rcases mem_of_survivor chosen with ⟨lists, isLayer, isIn⟩
    rw [List.getElem?_map] at isLayer
    rcases Option.map_eq_some_iff.mp isLayer with ⟨before, -, rfl⟩
    exact ((mem_purge_iff before index.tombstones entry).mp isIn).2
  · next alive =>
      cases chosen
      exact alive

/-- After compaction the live nodes can be reached exactly if they can be reached from the
next entry point over live nodes alone. -/
theorem allFindable_compact_iff :
    AllFindable (index.compact order) ↔ ∀ node, Live index node →
      ∃ entry layer, nextEntry index order = some (entry, layer) ∧
        Reaches (keptNeighbours index) entry node := by
  simp only [AllFindable, Findable, live_compact_iff, neighbours_compact, entryPoint_compact]

/-! ## The descent after compaction -/

section Descent

variable {query : List Coord}

theorem greedySteps_compact (some : index.tombstones ≠ []) (current : Item Distance)
    (nodes : List Uuid) :
    (nodes.filter (· ∉ index.tombstones)).foldl
        ((index.compact order).greedyStep numbers query) current =
      nodes.foldl (index.greedyStep numbers query) current := by
  induction nodes generalizing current with
  | nil => rfl
  | cons node nodes induction =>
      by_cases dead : node ∈ index.tombstones
      · have stays : index.greedyStep numbers query current node = current := if_pos dead
        rw [List.filter_cons_of_neg (by simpa using dead), List.foldl_cons, stays]
        exact induction current
      · have same : (index.compact order).greedyStep numbers query current node =
            index.greedyStep numbers query current node := by
          rw [HnswIndex.greedyStep, HnswIndex.greedyStep, if_neg dead, HnswIndex.compact,
            if_neg some]
          dsimp only
          rw [if_neg List.not_mem_nil, Dict.lookup_eraseAll, if_neg dead]
        rw [List.filter_cons_of_pos (by simpa using dead), List.foldl_cons, List.foldl_cons, same]
        exact induction _

theorem greedyLoop_compact (some : index.tombstones ≠ []) {current : Item Distance}
    (alive : current.id ∉ index.tombstones) (layer fuel : Nat) :
    (index.compact order).greedyLoop numbers query layer fuel current =
      index.greedyLoop numbers query layer fuel current := by
  have layers : (index.compact order).layers = index.layers.map (·.purge index.tombstones) := by
    rw [HnswIndex.compact, if_neg some]
  induction fuel generalizing current with
  | zero => rfl
  | succ fuel induction =>
      rw [HnswIndex.greedyLoop, HnswIndex.greedyLoop, layers, List.getElem?_map]
      cases index.layers[layer]? with
      | none => rfl
      | some lists =>
          dsimp only [Option.map_some]
          rw [bucket_purge, if_neg alive, greedySteps_compact some]
          have improves : Improves index current ((lists.bucket current.id).foldl
              (index.greedyStep numbers query) current) := greedySteps_improve _
          split
          · apply induction
            rcases improves with same | better
            · rw [same]
              exact alive
            · exact better.1
          · rfl

theorem greedyLoop_mono {layer fuel more : Nat} {current : Item Distance} {id : Uuid}
    (ran : index.greedyLoop numbers query layer fuel current = some id) (atMost : fuel ≤ more) :
    index.greedyLoop numbers query layer more current = some id := by
  induction fuel generalizing current more with
  | zero => cases ran
  | succ fuel induction =>
      rcases Nat.exists_eq_add_of_le' (Nat.zero_lt_of_lt atMost) with ⟨fewer, rfl⟩
      rw [HnswIndex.greedyLoop] at ran ⊢
      cases isLayer : index.layers[layer]? with
      | none =>
          rw [isLayer] at ran
          cases ran
      | some lists =>
          rw [isLayer] at ran
          dsimp only at ran ⊢
          split at ran
          · next nearer =>
              rw [if_pos nearer]
              exact induction ran (Nat.le_of_succ_le_succ atMost)
          · next farther =>
              rw [if_neg farther]
              exact ran

theorem greedySearchLayer_compact {entry id : Uuid} {layer : Nat}
    (alive : entry ∉ index.tombstones)
    (ran : (index.compact order).greedySearchLayer numbers query entry layer = some id) :
    index.greedySearchLayer numbers query entry layer = some id ∧ id ∉ index.tombstones := by
  by_cases none : index.tombstones = []
  · rw [compact_of_none none] at ran
    exact ⟨ran, none ▸ List.not_mem_nil⟩
  · have vectors : (index.compact order).vectors = index.vectors.eraseAll index.tombstones := by
      rw [HnswIndex.compact, if_neg none]
    rw [HnswIndex.greedySearchLayer, vectors, Dict.lookup_eraseAll, if_neg alive] at ran
    rw [HnswIndex.greedySearchLayer]
    cases found : index.vectors.lookup entry with
    | none =>
        rw [found] at ran
        cases ran
    | some vector =>
        rw [found] at ran
        dsimp only at ran ⊢
        rw [greedyLoop_compact none alive] at ran
        have fewer : (index.vectors.eraseAll index.tombstones).keys ⊆ index.vectors.keys := by
          intro other isIn
          exact ((Dict.mem_eraseAll_iff _ _ other).mp isIn).1
        have atMost := ((AList.keys_nodup _).subperm fewer).length_le
        have measured : Measured numbers index (fun _ => True) query
            ⟨numbers.euclidean query vector, entry⟩ := ⟨trivial, vector, found, rfl⟩
        rcases greedyLoop_improves measured ran with ⟨better, rfl, -, improves⟩
        refine ⟨greedyLoop_mono ran (Nat.succ_le_succ atMost), ?_⟩
        rcases improves with rfl | ⟨betterAlive, -⟩
        · exact alive
        · exact betterAlive

theorem descend_compact {entry id : Uuid} {top bottom : Nat} (alive : entry ∉ index.tombstones)
    (ran : (index.compact order).descend numbers query entry top bottom = some id) :
    index.descend numbers query entry top bottom = some id := by
  unfold HnswIndex.descend at ran ⊢
  generalize (List.range' bottom (top + 1 - bottom)).reverse = places at ran
  induction places generalizing entry with
  | nil => exact ran
  | cons place places induction =>
      rw [List.foldlM_cons] at ran ⊢
      rcases Option.bind_eq_some_iff.mp ran with ⟨middle, first, rest⟩
      rcases greedySearchLayer_compact alive first with ⟨same, middleAlive⟩
      exact Option.bind_eq_some_iff.mpr ⟨middle, same, induction middleAlive rest⟩

end Descent

/-- The descent ends where it would have ended before, from the next entry point. -/
theorem lands_compact_iff (ready : Ready index) (query : List Coord) (start : Uuid) :
    Lands numbers (index.compact order) (index.compact order).entryPoint query start ↔
      Lands numbers index (nextEntry index order) query start := by
  have readyAfter : Ready (index.compact order) := ready_compact ready order
  rw [entryPoint_compact]
  constructor
  · rintro ⟨entry, layer, isNext, descended⟩
    exact ⟨entry, layer, isNext, descend_compact (nextEntry_alive isNext) descended⟩
  · rintro ⟨entry, layer, isNext, descended⟩
    rcases readyAfter.entry entry layer (entryPoint_compact.trans isNext) with ⟨stored, inRange⟩
    have again : ∃ found, (index.compact order).descend numbers query entry layer 1 = some found ∧
        True ∧ found ∈ (index.compact order).vectors :=
      descend_spec inRange (fun _ _ _ _ _ _ _ _ => trivial) trivial stored
    rcases again with ⟨found, ran, -, -⟩
    cases descended.symm.trans (descend_compact (nextEntry_alive isNext) ran)
    exact ⟨entry, layer, isNext, ran⟩

/-! ## Searches with room for all nodes -/

/-- A search can return so many nodes, and its beam has room for them. -/
def HasRoom (numbers : Numbers Coord Distance Recall) (count k : Nat) (recallTarget : Recall) :
    Prop :=
  count ≤ k ∧ count ≤ HnswIndex.searchEf numbers k recallTarget

/-- Every search with room for all nodes returns every live node. -/
def SearchesComplete (numbers : Numbers Coord Distance Recall) (index : HnswIndex Coord) : Prop :=
  ∀ query k recallTarget, HasRoom numbers index.vectors.keys.length k recallTarget →
    ∀ node, Live index node → ∃ results, index.search numbers query k recallTarget = some results ∧
      node ∈ results.map Prod.fst

omit [LinearOrder Distance] in
/-- On the way to a stored node only stored nodes are passed. -/
theorem reaches_stored (owned : Owned index) {query : List Coord} {start node : Uuid}
    (reaches : Reaches (neighbours index) start node) (stored : node ∈ index.vectors) :
    Reaches (nearNeighbours numbers index query fun _ => True) start node := by
  induction reaches with
  | refl => exact .refl
  | @tail middle node _ isEdge induction =>
      have middleStored : middle ∈ index.vectors := by
        unfold Edge neighbours at isEdge
        cases layers : index.layers with
        | nil =>
            rw [layers] at isEdge
            cases isEdge
        | cons lists rest =>
            rw [layers] at isEdge
            apply owned 0 lists (by rw [layers]; rfl)
            by_contra missing
            rw [List.headD_cons, Buckets.bucket, AList.lookup_eq_none.mpr missing] at isEdge
            cases isEdge
      refine (induction middleStored).tail (List.mem_filter.mpr ⟨isEdge, decide_eq_true ?_⟩)
      rcases Option.isSome_iff_exists.mp (AList.lookup_isSome.mpr stored) with ⟨vector, found⟩
      exact ⟨vector, found, trivial⟩

/-- With room for all nodes, a beam search returns all that it can reach. -/
theorem searchLayer_all (ready : Ready index) {query : List Coord} {start : Item Distance}
    {ef : Nat} {items : List (Item Distance)} {node : Uuid} (inRange : 0 < index.layers.length)
    (positive : 0 < ef) (measured : Measured numbers index (fun _ => True) query start)
    (room : index.vectors.keys.length ≤ ef) (stored : node ∈ index.vectors)
    (reaches : Reaches (neighbours index) start.id node)
    (ran : index.searchLayer numbers query [start] ef 0 = some items) :
    node ∈ items.map Item.id := by
  have found : (ef ≤ items.length ∧ ∀ item ∈ items, True) ∨
      ∀ other, Reaches (nearNeighbours numbers index query fun _ => True) start.id other →
        other ∈ items.map Item.id :=
    searchLayer_finds inRange (fun _ _ _ _ => trivial) positive measured trivial ran
  rcases found with ⟨enough, -⟩ | all
  · have isLayer : index.layers[0]? = some index.layers[0] := List.getElem?_eq_getElem inRange
    have distinct : (items.map Item.id).Nodup :=
      (searchLayer_within inRange (fun _ _ _ _ => trivial) trivial ran).1
    have ordered : items.Pairwise Item.Le ∧
        ∀ item ∈ items, Measured numbers index (fun _ => True) query item :=
      ordered_searchLayer isLayer (fun item isIn => List.mem_singleton.mp isIn ▸ measured) ran
    have within : items.map Item.id ⊆ index.vectors.keys := by
      intro id isId
      rcases List.mem_map.mp isId with ⟨item, isIn, rfl⟩
      rcases (ordered.2 item isIn).dist with ⟨vector, isVector, -⟩
      exact AList.lookup_isSome.mp (by rw [isVector]; rfl)
    have sameNodes := (distinct.subperm within).perm_of_length_le (by
      rw [List.length_map]
      exact room.trans enough)
    exact sameNodes.mem_iff.mpr stored
  · exact all node (reaches_stored ready.owned reaches stored)

/-- Without deleted nodes, searches with room for all nodes return them exactly if they can
be reached from wherever a descent ends. -/
theorem searchesComplete_iff (ready : Ready index) (clean : index.tombstones = [])
    (findable : AllFindable index) :
    SearchesComplete numbers index ↔
      ((∃ k recallTarget, HasRoom numbers index.vectors.keys.length k recallTarget) →
        ∀ query start, Lands numbers index index.entryPoint query start →
          ∀ node, Live index node → Reaches (neighbours index) start node) := by
  constructor
  · rintro complete ⟨k, recallTarget, room⟩ query start ⟨entry, layer, isEntry, descended⟩ node live
    rcases complete query k recallTarget room node live with ⟨results, searched, isIn⟩
    rcases search_cases searched with ⟨-, rfl⟩ | found
    · cases isIn
    · rcases found with ⟨_, _, _, vector, items, sameEntry, -, sameStart, isVector, ranLayer, rfl⟩
      cases isEntry.symm.trans sameEntry
      cases descended.symm.trans sameStart
      have inRange : 0 < index.layers.length :=
        Nat.zero_lt_of_lt (ready.entry entry layer isEntry).2
      have within : (items.map Item.id).Nodup ∧
          ∀ item ∈ items, Reaches (neighbours index) start item.id := by
        refine searchLayer_within inRange (fun _ way _ isEdge => way.tail isEdge) ?_ ranLayer
        exact .refl
      rw [List.map_map] at isIn
      rcases List.mem_map.mp isIn with ⟨item, isItem, rfl⟩
      exact within.2 item (List.mem_filter.mp (List.mem_of_mem_take isItem)).1
  · intro reached query k recallTarget room node live
    rcases findable node live with ⟨entry, layer, isEntry, -⟩
    rcases search_returns numbers ready.entry query k recallTarget with ⟨results, searched⟩
    refine ⟨results, searched, ?_⟩
    rcases search_cases searched with ⟨noEntry | noLive, -⟩ | found
    · cases isEntry.symm.trans noEntry
    · have counted := (List.length_pos_of_mem (mem_liveNodes_iff.mpr live)).trans_le ready.counted
      omega
    · rcases found with ⟨_, _, start, vector, items, sameEntry, -, descended, isVector, ranLayer, rfl⟩
      cases isEntry.symm.trans sameEntry
      have inRange : 0 < index.layers.length :=
        Nat.zero_lt_of_lt (ready.entry entry layer isEntry).2
      have positive := searchEf_pos numbers k recallTarget
      have measured : Measured numbers index (fun _ => True) query
          ⟨numbers.euclidean query vector, start⟩ := ⟨trivial, vector, isVector, rfl⟩
      have way : Reaches (neighbours index) start node :=
        reached ⟨k, recallTarget, room⟩ query start ⟨entry, layer, isEntry, descended⟩ node live
      have isIn : node ∈ items.map Item.id :=
        searchLayer_all ready inRange positive measured room.2 live.1 way ranLayer
      have distinct : (items.map Item.id).Nodup :=
        (searchLayer_within inRange (fun _ _ _ _ => trivial) trivial ranLayer).1
      have ordered : items.Pairwise Item.Le ∧
          ∀ item ∈ items, Measured numbers index (fun _ => True) query item :=
        ordered_searchLayer (List.getElem?_eq_getElem inRange)
          (fun item isIn => List.mem_singleton.mp isIn ▸ measured) ranLayer
      have within : items.map Item.id ⊆ index.vectors.keys := by
        intro id isId
        rcases List.mem_map.mp isId with ⟨item, isIn, rfl⟩
        rcases (ordered.2 item isIn).dist with ⟨vector, isVector, -⟩
        exact AList.lookup_isSome.mp (by rw [isVector]; rfl)
      have atMost := (distinct.subperm within).length_le
      rw [List.length_map] at atMost
      have all : items.filter (fun item => item.id ∉ index.tombstones) = items := by
        simp [clean]
      rw [all, List.take_of_length_le (atMost.trans room.1), List.map_map]
      exact isIn

theorem length_keys_compact :
    (index.compact order).vectors.keys.length = (liveNodes index).length := by
  have none : (index.compact order).tombstones = [] := (compact_counts index order).2.2
  have same : liveNodes (index.compact order) = (index.compact order).vectors.keys := by
    simp [liveNodes, none]
  rw [← same]
  exact (liveNodes_perm live_compact_iff).length_eq

/-- Compaction keeps live nodes findable exactly if they can be reached over live nodes
alone, from the next entry point and from wherever a descent from it ends. -/
theorem compact_findable_iff {dims m efConstruction : Nat} {calls : List (IndexCall Coord)}
    (ran : attempt (HnswIndex.perform numbers) (.new dims m efConstruction) calls = some index)
    (order : KeyOrder) :
    (AllFindable index →
        AllFindable (index.compact order) ∧ SearchesComplete numbers (index.compact order)) ↔
      (AllFindable index →
        (∀ node, Live index node → ∃ entry layer, nextEntry index order = some (entry, layer) ∧
          Reaches (keptNeighbours index) entry node) ∧
        ((∃ k recallTarget, HasRoom numbers (liveNodes index).length k recallTarget) →
          ∀ query start, Lands numbers index (nextEntry index order) query start →
            ∀ node, Live index node → Reaches (keptNeighbours index) start node)) := by
  have ready : Ready index := ready_of_run ran
  apply forall_congr'
  intro _
  rw [← allFindable_compact_iff]
  apply and_congr_right
  intro findable
  rw [searchesComplete_iff (ready_compact ready order) (compact_counts index order).2.2 findable,
    length_keys_compact, neighbours_compact]
  simp only [lands_compact_iff ready, live_compact_iff]

def sampleOrder : KeyOrder := ⟨id, fun _ => .refl _⟩

/-- Two points, without the second. -/
def endDeleted : HnswIndex ℤ :=
  (attempt (HnswIndex.perform sampleNumbers) (.new 1 1 16)
    [.insert (.ofByte 1) [0], .insert (.ofByte 2) [1], .delete (.ofByte 2)]).get
    (isSome_run sampleNumbers 1 1 16 _)

theorem end_deleted :
    AllFindable (endDeleted.compact sampleOrder) ∧
      SearchesComplete sampleNumbers (endDeleted.compact sampleOrder) := by
  have ran : attempt (HnswIndex.perform sampleNumbers) (.new 1 1 16)
      [.insert (.ofByte 1) [0], .insert (.ofByte 2) [1], .delete (.ofByte 2)] = some endDeleted :=
    (Option.some_get _).symm
  have facts : endDeleted.entryPoint = some (.ofByte 1, 8) ∧
      nextEntry endDeleted sampleOrder = some (.ofByte 1, 8) ∧
      liveNodes endDeleted = [.ofByte 1] ∧ Uuid.ofByte 1 ∉ endDeleted.tombstones := by
    decide +kernel
  rcases facts with ⟨isEntry, isNext, lives, alive⟩
  have only (node : Uuid) (live : Live endDeleted node) : node = .ofByte 1 := by
    have isIn := mem_liveNodes_iff.mpr live
    rw [lives] at isIn
    exact List.mem_singleton.mp isIn
  have findable : AllFindable endDeleted := by
    intro node live
    rw [only node live]
    exact ⟨_, _, isEntry, .refl⟩
  refine (compact_findable_iff ran sampleOrder).mpr (fun _ => ⟨?_, ?_⟩) findable
  · intro node live
    rw [only node live]
    exact ⟨_, _, isNext, .refl⟩
  · rintro - query start ⟨entry, layer, isFound, descended⟩ node live
    cases isNext.symm.trans isFound
    have stored : Uuid.ofByte 1 ∈ endDeleted.vectors := by
      decide +kernel
    rcases Option.isSome_iff_exists.mp (AList.lookup_isSome.mpr stored) with ⟨vector, found⟩
    have entryMeasured : Measured sampleNumbers endDeleted (fun _ => True) query
        ⟨sampleNumbers.euclidean query vector, .ofByte 1⟩ := ⟨trivial, vector, found, rfl⟩
    rcases descend_improves entryMeasured descended with ⟨better, rfl, measured, improves⟩
    rw [only node live]
    rcases improves with rfl | ⟨betterAlive, -⟩
    · exact .refl
    · rcases measured.dist with ⟨place, isPlace, -⟩
      have betterStored := AList.lookup_isSome.mp (by rw [isPlace]; rfl)
      rw [only better.id ⟨betterStored, betterAlive⟩]
      exact .refl

/-- Without the point in the middle, the point behind it is lost. -/
theorem bridge_deleted :
    Reachable sampleNumbers sampleDeleted ∧ AllFindable sampleDeleted ∧
      ¬AllFindable (sampleDeleted.compact sampleOrder) ∧
      (sampleDeleted.compact sampleOrder).search sampleNumbers [2] 10 () =
        some [(.ofByte 1, 2)] := by
  refine ⟨reachable_sampleDeleted, ?_, ?_, by decide +kernel⟩
  · intro node live
    have searched : (sampleDeleted.vectors.keys.all fun node =>
        (search (neighbours sampleDeleted) node 4 [] (.ofByte 1)).map Prod.fst = some true) = true := by
      decide +kernel
    have found := of_decide_eq_true
      (List.all_eq_true.mp searched node (AList.mem_keys.mp live.1))
    rcases Option.map_eq_some_iff.mp found with ⟨⟨_, visited⟩, ran, rfl⟩
    exact ⟨.ofByte 1, 8, by decide +kernel, reaches_of_search ran⟩
  · intro all
    have live : Live (sampleDeleted.compact sampleOrder) (.ofByte 3) := by
      unfold Live
      decide +kernel
    have isEntry : (sampleDeleted.compact sampleOrder).entryPoint = some (.ofByte 1, 8) := by
      decide +kernel
    have searched : search (neighbours (sampleDeleted.compact sampleOrder)) (.ofByte 3) 4 []
        (.ofByte 1) = some (false, [.ofByte 1]) := by
      decide +kernel
    rcases all _ live with ⟨entry, layer, isFound, reaches⟩
    cases isEntry.symm.trans isFound
    exact not_reaches_of_search searched reaches

end FunDB.Hnsw
