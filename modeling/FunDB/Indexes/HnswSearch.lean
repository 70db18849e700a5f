import FunDB.Foundation.GraphSearch
import FunDB.Indexes.Hnsw
import Mathlib.Data.List.Perm.Subperm

/-! # The searches of the HNSW index

Both searches of a layer end, and find only nodes that a closed set of nodes
contains. -/

namespace FunDB.Hnsw

open GraphSearch

variable {Coord Distance Recall : Type} [LinearOrder Distance]
variable {numbers : Numbers Coord Distance Recall} {index : HnswIndex Coord}

/-! ## The beam -/

/-- All items are in a set of nodes, and the results are different nodes that
were visited. -/
structure BeamIn (inside : Uuid → Prop) (beam : Beam Distance) : Prop where
  candidates : ∀ item ∈ beam.candidates, inside item.id
  result : ∀ item ∈ beam.result, inside item.id
  seen : ∀ item ∈ beam.result, item.id ∈ beam.visited
  nodup : (beam.result.map Item.id).Nodup

namespace BeamIn

variable {inside : Uuid → Prop} {beam : Beam Distance}

omit [LinearOrder Distance] in
theorem visit (sound : BeamIn inside beam) (id : Uuid) : BeamIn inside (beam.visit id) where
  candidates := sound.candidates
  result := sound.result
  seen item isIn := List.mem_cons_of_mem _ (sound.seen item isIn)
  nodup := sound.nodup

theorem visit_push (sound : BeamIn inside beam) {item : Item Distance} (new : item.id ∉ beam.visited)
    (isInside : inside item.id) : BeamIn inside ((beam.visit item.id).push item) where
  candidates other isIn := by
    rcases (List.mem_orderedInsert Item.Le).mp isIn with rfl | old
    · exact isInside
    · exact sound.candidates other old
  result other isIn := by
    rcases (List.mem_orderedInsert Item.Le).mp isIn with rfl | old
    · exact isInside
    · exact sound.result other old
  seen other isIn := by
    rcases (List.mem_orderedInsert Item.Le).mp isIn with rfl | old
    · exact List.mem_cons_self
    · exact List.mem_cons_of_mem _ (sound.seen other old)
  nodup := by
    have added := (List.perm_orderedInsert Item.Le item beam.result).map Item.id
    apply added.nodup_iff.mpr
    refine List.nodup_cons.mpr ⟨fun isIn => ?_, sound.nodup⟩
    rcases List.mem_map.mp isIn with ⟨other, isResult, same⟩
    exact new (same ▸ sound.seen other isResult)

omit [LinearOrder Distance] in
theorem evict (sound : BeamIn inside beam) (ef : Nat) : BeamIn inside (beam.evict ef) := by
  unfold Beam.evict
  split
  · have shorter : beam.result.dropLast.Sublist beam.result := List.dropLast_sublist _
    exact {
      candidates := sound.candidates
      result := fun item isIn => sound.result item (shorter.subset isIn)
      seen := fun item isIn => sound.seen item (shorter.subset isIn)
      nodup := sound.nodup.sublist (shorter.map Item.id) }
  · exact sound

theorem enter (sound : BeamIn inside beam) {item : Item Distance} (isInside : inside item.id) :
    BeamIn inside (beam.enter item) := by
  unfold Beam.enter
  split
  · exact sound
  · next new => exact sound.visit_push new isInside

theorem enters {entries : List (Item Distance)} (sound : BeamIn inside beam)
    (all : ∀ item ∈ entries, inside item.id) : BeamIn inside (entries.foldl Beam.enter beam) := by
  induction entries generalizing beam with
  | nil => exact sound
  | cons item entries induction =>
      apply induction (sound.enter (all item List.mem_cons_self))
      exact fun other isIn => all other (List.mem_cons_of_mem _ isIn)

theorem start {entries : List (Item Distance)} (all : ∀ item ∈ entries, inside item.id) :
    BeamIn inside (Beam.start entries) := by
  refine enters ⟨?_, ?_, ?_, List.nodup_nil⟩ all
  · exact fun _ isIn => nomatch isIn
  · exact fun _ isIn => nomatch isIn
  · exact fun _ isIn => nomatch isIn

end BeamIn

theorem length_candidates_enters (entries : List (Item Distance)) (beam : Beam Distance) :
    (entries.foldl Beam.enter beam).candidates.length ≤
      beam.candidates.length + entries.length := by
  induction entries generalizing beam with
  | nil => exact Nat.le_refl _
  | cons item entries induction =>
      have step : (beam.enter item).candidates.length ≤ beam.candidates.length + 1 := by
        unfold Beam.enter
        split
        · exact Nat.le_succ _
        · exact Nat.le_of_eq (List.orderedInsert_length _ _ _)
      have rest := induction (beam.enter item)
      rw [List.foldl_cons, List.length_cons]
      omega

theorem length_candidates_start (entries : List (Item Distance)) :
    (Beam.start entries).candidates.length ≤ entries.length :=
  (length_candidates_enters entries _).trans (Nat.le_of_eq (Nat.zero_add _))

/-! ## Beam search -/

def potential (index : HnswIndex Coord) (beam : Beam Distance) : Nat :=
  beam.candidates.length + unvisited index.vectors.keys beam.visited

/-- Nodes with vectors in the lists of a layer are in the set. -/
def Closed (index : HnswIndex Coord) (inside : Uuid → Prop) (lists : Layer) : Prop :=
  ∀ node, ∀ other ∈ lists.bucket node, other ∈ index.vectors → inside other

section Beam

variable {inside : Uuid → Prop} {beam : Beam Distance} {query : List Coord} {ef layer : Nat}

omit [LinearOrder Distance] in
theorem candidates_evict (beam : Beam Distance) (ef : Nat) :
    (beam.evict ef).candidates = beam.candidates := by
  unfold Beam.evict
  split <;> rfl

omit [LinearOrder Distance] in
theorem visited_evict (beam : Beam Distance) (ef : Nat) :
    (beam.evict ef).visited = beam.visited := by
  unfold Beam.evict
  split <;> rfl

theorem offer_spec {neighbour : Uuid} (sound : BeamIn inside beam)
    (isInside : neighbour ∈ index.vectors → inside neighbour) :
    BeamIn inside (index.offer numbers query ef beam neighbour) ∧
      potential index (index.offer numbers query ef beam neighbour) ≤ potential index beam := by
  unfold HnswIndex.offer
  split
  · exact ⟨sound, Nat.le_refl _⟩
  · next new =>
      have fewer : unvisited index.vectors.keys (neighbour :: beam.visited) ≤
          unvisited index.vectors.keys beam.visited := unvisited_le (List.subset_cons_self _ _)
      have visited : potential index (beam.visit neighbour) ≤ potential index beam :=
        Nat.add_le_add_left fewer _
      cases found : index.vectors.lookup neighbour with
      | none => exact ⟨sound.visit neighbour, visited⟩
      | some vector =>
          have stored : neighbour ∈ index.vectors := AList.lookup_isSome.mp (by rw [found]; rfl)
          dsimp only
          split
          · constructor
            · apply BeamIn.evict
              let item : Item Distance := ⟨numbers.euclidean query vector, neighbour⟩
              have pushed : BeamIn inside ((beam.visit item.id).push item) :=
                sound.visit_push new (isInside stored)
              exact pushed
            · have less : unvisited index.vectors.keys (neighbour :: beam.visited) <
                  unvisited index.vectors.keys beam.visited := unvisited_cons_lt stored new
              simp only [potential, candidates_evict, visited_evict, Beam.push, Beam.visit,
                List.orderedInsert_length]
              omega
          · exact ⟨sound.visit neighbour, visited⟩

theorem offers_spec {neighbours : List Uuid} (sound : BeamIn inside beam)
    (allInside : ∀ other ∈ neighbours, other ∈ index.vectors → inside other) :
    BeamIn inside (neighbours.foldl (index.offer numbers query ef) beam) ∧
      potential index (neighbours.foldl (index.offer numbers query ef) beam) ≤
        potential index beam := by
  induction neighbours generalizing beam with
  | nil => exact ⟨sound, Nat.le_refl _⟩
  | cons neighbour neighbours induction =>
      have step : BeamIn inside (index.offer numbers query ef beam neighbour) ∧
          potential index (index.offer numbers query ef beam neighbour) ≤ potential index beam :=
        offer_spec sound (allInside neighbour List.mem_cons_self)
      rcases induction step.1 fun other isIn => allInside other (List.mem_cons_of_mem _ isIn) with
        ⟨rest, fewer⟩
      exact ⟨rest, fewer.trans step.2⟩

theorem beamLoop_spec {lists : Layer} {fuel : Nat} (sound : BeamIn inside beam)
    (isLayer : index.layers[layer]? = some lists) (closed : Closed index inside lists)
    (enough : potential index beam < fuel) :
    ∃ items, index.beamLoop numbers query ef layer fuel beam = some items ∧
      (items.map Item.id).Nodup ∧ ∀ item ∈ items, inside item.id := by
  induction fuel generalizing beam with
  | zero => omega
  | succ fuel induction =>
      rw [HnswIndex.beamLoop]
      split
      · exact ⟨_, rfl, sound.nodup, sound.result⟩
      · next current rest next =>
          split
          · exact ⟨_, rfl, sound.nodup, sound.result⟩
          · rw [isLayer]
            dsimp only
            have popped : BeamIn inside { beam with candidates := rest } := {
              candidates := fun item isIn =>
                sound.candidates item (next ▸ List.mem_cons_of_mem _ isIn)
              result := sound.result
              seen := sound.seen
              nodup := sound.nodup }
            have less : potential index { beam with candidates := rest } < potential index beam := by
              simp only [potential, next, List.length_cons]
              omega
            have expanded : BeamIn inside ((lists.bucket current.id).foldl
                (index.offer numbers query ef) { beam with candidates := rest }) ∧ _ :=
              offers_spec popped (closed current.id)
            exact induction expanded.1 (by omega)

theorem searchLayer_spec {lists : Layer} {entries : List (Item Distance)}
    (isLayer : index.layers[layer]? = some lists) (closed : Closed index inside lists)
    (entriesIn : ∀ item ∈ entries, inside item.id) :
    ∃ items, index.searchLayer numbers query entries ef layer = some items ∧
      (items.map Item.id).Nodup ∧ ∀ item ∈ items, inside item.id := by
  apply beamLoop_spec (BeamIn.start entriesIn) isLayer closed
  have short := length_candidates_start entries
  have fewer : unvisited index.vectors.keys (Beam.start entries).visited ≤
      index.vectors.keys.length := List.length_filter_le _ _
  unfold potential
  omega

end Beam

/-! ## Greedy search -/

section Greedy

variable {inside : Uuid → Prop} {query : List Coord} {layer : Nat} {current : Item Distance}

/-- The item is a stored node of the set, with its distance to the query. -/
structure Measured (numbers : Numbers Coord Distance Recall) (index : HnswIndex Coord)
    (inside : Uuid → Prop) (query : List Coord) (item : Item Distance) : Prop where
  inside : inside item.id
  dist : ∃ vector, index.vectors.lookup item.id = some vector ∧
    item.dist = numbers.euclidean query vector

/-- The stored nodes that are nearer than a distance. -/
def nearer (numbers : Numbers Coord Distance Recall) (index : HnswIndex Coord)
    (query : List Coord) (dist : Distance) : List Uuid :=
  index.vectors.keys.filter fun id =>
    ∃ vector ∈ index.vectors.lookup id, numbers.euclidean query vector < dist

theorem mem_nearer_iff {id : Uuid} {dist : Distance} :
    id ∈ nearer numbers index query dist ↔
      ∃ vector, index.vectors.lookup id = some vector ∧
        numbers.euclidean query vector < dist := by
  simp only [nearer, List.mem_filter, decide_eq_true_eq, Option.mem_def]
  constructor
  · exact And.right
  · rintro ⟨vector, found, less⟩
    exact ⟨AList.lookup_isSome.mp (by rw [found]; rfl), vector, found, less⟩

/-- A step to a nearer node leaves fewer nodes that are nearer. -/
theorem length_nearer_lt {next : Item Distance} {dist : Distance}
    (measured : Measured numbers index inside query next) (less : next.dist < dist) :
    (nearer numbers index query next.dist).length < (nearer numbers index query dist).length := by
  rcases measured.dist with ⟨vector, found, same⟩
  have isIn : next.id ∈ nearer numbers index query dist :=
    mem_nearer_iff.mpr ⟨vector, found, same ▸ less⟩
  have notIn : next.id ∉ nearer numbers index query next.dist := by
    intro isNearer
    rcases mem_nearer_iff.mp isNearer with ⟨other, foundOther, lessOther⟩
    cases found.symm.trans foundOther
    exact absurd (same ▸ lessOther) (lt_irrefl _)
  have shorter : nearer numbers index query next.dist ⊆ (nearer numbers index query dist).erase next.id := by
    intro id isNearer
    rcases mem_nearer_iff.mp isNearer with ⟨other, foundOther, lessOther⟩
    apply (List.mem_erase_of_ne _).mpr
    · exact mem_nearer_iff.mpr ⟨other, foundOther, lessOther.trans less⟩
    · rintro rfl
      exact notIn isNearer
  have distinct : (nearer numbers index query next.dist).Nodup := index.vectors.keys_nodup.filter _
  have bound := (distinct.subperm shorter).length_le
  rw [List.length_erase_of_mem isIn] at bound
  have := List.length_pos_of_mem isIn
  omega

theorem measured_greedyStep {neighbour : Uuid}
    (measured : Measured numbers index inside query current)
    (isInside : neighbour ∈ index.vectors → inside neighbour) :
    Measured numbers index inside query (index.greedyStep numbers query current neighbour) := by
  unfold HnswIndex.greedyStep
  split
  · exact measured
  · split
    · exact measured
    · next vector found =>
        dsimp only
        split
        · exact ⟨isInside (AList.lookup_isSome.mp (by rw [found]; rfl)), vector, found, rfl⟩
        · exact measured

theorem measured_greedySteps {neighbours : List Uuid}
    (measured : Measured numbers index inside query current)
    (allInside : ∀ other ∈ neighbours, other ∈ index.vectors → inside other) :
    Measured numbers index inside query
      (neighbours.foldl (index.greedyStep numbers query) current) := by
  induction neighbours generalizing current with
  | nil => exact measured
  | cons neighbour neighbours induction =>
      apply induction (measured_greedyStep measured (allInside neighbour List.mem_cons_self))
      exact fun other isIn => allInside other (List.mem_cons_of_mem _ isIn)

/-- Greedy search ends because every turn but the last leaves fewer nodes that
are nearer. -/
theorem greedyLoop_spec {lists : Layer} {fuel : Nat}
    (isLayer : index.layers[layer]? = some lists) (closed : Closed index inside lists)
    (measured : Measured numbers index inside query current)
    (enough : (nearer numbers index query current.dist).length < fuel) :
    ∃ id, index.greedyLoop numbers query layer fuel current = some id ∧ inside id ∧
      id ∈ index.vectors := by
  induction fuel generalizing current with
  | zero => omega
  | succ fuel induction =>
      have next : Measured numbers index inside query
          ((lists.bucket current.id).foldl (index.greedyStep numbers query) current) :=
        measured_greedySteps measured (closed current.id)
      rw [HnswIndex.greedyLoop, isLayer]
      dsimp only
      split
      · next less =>
          have fewer := length_nearer_lt next less
          exact induction next (by omega)
      · rcases next.dist with ⟨vector, found, -⟩
        exact ⟨_, rfl, next.inside, AList.lookup_isSome.mp (by rw [found]; rfl)⟩

theorem greedySearchLayer_spec {lists : Layer} {entry : Uuid}
    (isLayer : index.layers[layer]? = some lists) (closed : Closed index inside lists)
    (entryIn : inside entry) (stored : entry ∈ index.vectors) :
    ∃ id, index.greedySearchLayer numbers query entry layer = some id ∧ inside id ∧
      id ∈ index.vectors := by
  rcases Option.isSome_iff_exists.mp (AList.lookup_isSome.mpr stored) with ⟨vector, found⟩
  rw [HnswIndex.greedySearchLayer, found]
  apply greedyLoop_spec isLayer closed ⟨entryIn, vector, found, rfl⟩
  exact Nat.lt_succ_of_le (List.length_filter_le _ _)

theorem descend_spec {entry : Uuid} {top bottom : Nat}
    (inRange : top < index.layers.length)
    (closed : ∀ place lists, bottom ≤ place → index.layers[place]? = some lists →
      Closed index inside lists)
    (entryIn : inside entry) (stored : entry ∈ index.vectors) :
    ∃ id, index.descend numbers query entry top bottom = some id ∧ inside id ∧
      id ∈ index.vectors := by
  have steps : ∀ places : List Nat, (∀ place ∈ places, bottom ≤ place ∧ place ≤ top) →
      ∀ entry, inside entry → entry ∈ index.vectors →
        ∃ id, places.foldlM (index.greedySearchLayer numbers query) entry = some id ∧
          inside id ∧ id ∈ index.vectors := by
    intro places
    induction places with
    | nil => exact fun _ entry entryIn stored => ⟨entry, rfl, entryIn, stored⟩
    | cons place places induction =>
        intro all entry entryIn stored
        rcases all place List.mem_cons_self with ⟨above, below⟩
        have isLayer : index.layers[place]? = some index.layers[place] :=
          List.getElem?_eq_getElem (by omega)
        have found : ∃ id, index.greedySearchLayer numbers query entry place = some id ∧
            inside id ∧ id ∈ index.vectors :=
          greedySearchLayer_spec isLayer (closed place _ above isLayer) entryIn stored
        rcases found with ⟨id, ran, idIn, idStored⟩
        rw [List.foldlM_cons, ran]
        exact induction (fun other isIn => all other (List.mem_cons_of_mem _ isIn)) id idIn idStored
  apply steps _ _ entry entryIn stored
  intro place isIn
  rcases List.mem_range'_1.mp (List.mem_reverse.mp isIn) with ⟨above, below⟩
  omega

end Greedy

end FunDB.Hnsw
