import FunDB.Core.Record
import FunDB.Foundation.Buckets
import Mathlib.Data.List.Sort

/-! # The HNSW index

Layers of neighbour lists, searched from an entry point and linked on insertion.
An access that panics and a loop that uses up its fuel give no result. -/

namespace FunDB.Hnsw

/-- What the index takes from floating-point numbers. -/
structure Numbers (Coord Distance Recall : Type) where
  euclidean : List Coord → List Coord → Distance
  /-- The layer of a node, by the number of connections and its identifier. -/
  randomLayer : Nat → Uuid → Nat
  /-- The recall target is above 0.9. -/
  isHigh : Recall → Bool
  /-- The number of results over what the recall target leaves. -/
  efAdaptive : Nat → Recall → Nat

/-- An order in which the keys of a hash map are visited. -/
structure KeyOrder where
  arrange : List Uuid → List Uuid
  perm : ∀ keys, (arrange keys).Perm keys

structure Item (Distance : Type) where
  dist : Distance
  id : Uuid
deriving DecidableEq, Repr

inductive HnswError where
  | dimensionMismatch (expected got : Nat)
  | notFound (id : Uuid)
deriving DecidableEq, Repr

/-- The neighbours of each node in a layer. -/
abbrev Layer := Buckets Uuid Uuid

/-- Give a node an empty list if it has none. -/
def Layer.touch (layer : Layer) (id : Uuid) : Layer :=
  if id ∈ layer then layer else layer.insert id []

/-- A layer without some nodes. -/
def Layer.purge (layer : Layer) (dead : List Uuid) : Layer :=
  Buckets.retain (· ∉ dead) (Dict.eraseAll layer dead)

structure HnswIndex (Coord : Type) where
  dims : Nat
  m : Nat
  efConstruction : Nat
  layers : List Layer
  vectors : Dict Uuid (List Coord)
  tombstones : List Uuid
  entryPoint : Option (Uuid × Nat)
  liveCount : Nat

/-! ## Items -/

section Items

variable {Distance : Type} [LinearOrder Distance]

/-- By distance, then by identifier. -/
def Item.Le (left right : Item Distance) : Prop :=
  left.dist < right.dist ∨ left.dist = right.dist ∧ left.id.toList ≤ right.id.toList

instance : DecidableRel (@Item.Le Distance _) :=
  fun _ _ => inferInstanceAs (Decidable (_ ∨ _))

/-- The state of a beam search: both heaps from the nearest item to the farthest. -/
structure Beam (Distance : Type) where
  visited : List Uuid
  candidates : List (Item Distance)
  result : List (Item Distance)

namespace Beam

def push (beam : Beam Distance) (item : Item Distance) : Beam Distance where
  visited := beam.visited
  candidates := beam.candidates.orderedInsert Item.Le item
  result := beam.result.orderedInsert Item.Le item

def visit (beam : Beam Distance) (id : Uuid) : Beam Distance :=
  { beam with visited := id :: beam.visited }

/-- Drop the farthest result if there are too many. -/
def evict (beam : Beam Distance) (ef : Nat) : Beam Distance :=
  if ef < beam.result.length then { beam with result := beam.result.dropLast } else beam

def worst (beam : Beam Distance) : Option Distance := beam.result.getLast?.map Item.dist

/-- The nearest candidate is farther than every result, and there are enough. -/
def IsDone (beam : Beam Distance) (current : Item Distance) (ef : Nat) : Prop :=
  (∃ worst ∈ beam.worst, worst < current.dist) ∧ ef ≤ beam.result.length

instance (beam : Beam Distance) (current : Item Distance) (ef : Nat) :
    Decidable (beam.IsDone current ef) := inferInstanceAs (Decidable (_ ∧ _))

/-- An item is nearer than the farthest result, or there are not enough. -/
def Wants (beam : Beam Distance) (dist : Distance) (ef : Nat) : Prop :=
  (∀ worst ∈ beam.worst, dist < worst) ∨ beam.result.length < ef

instance (beam : Beam Distance) (dist : Distance) (ef : Nat) :
    Decidable (beam.Wants dist ef) := inferInstanceAs (Decidable (_ ∨ _))

def enter (beam : Beam Distance) (item : Item Distance) : Beam Distance :=
  if item.id ∈ beam.visited then beam else (beam.visit item.id).push item

def start (entryCandidates : List (Item Distance)) : Beam Distance :=
  entryCandidates.foldl enter ⟨[], [], []⟩

end Beam

end Items

namespace HnswIndex

variable {Coord Distance Recall : Type} [LinearOrder Distance]
variable (numbers : Numbers Coord Distance Recall) (index : HnswIndex Coord)

def new (dims m efConstruction : Nat) : HnswIndex Coord :=
  ⟨dims, m, efConstruction, [], ∅, [], none, 0⟩

/-! ## Search -/

/-- Move to a neighbour that is nearer and not deleted. -/
def greedyStep (query : List Coord) (current : Item Distance) (neighbour : Uuid) :
    Item Distance :=
  if neighbour ∈ index.tombstones then current
  else
    match index.vectors.lookup neighbour with
    | none => current
    | some vector =>
        let dist := numbers.euclidean query vector
        if dist < current.dist then ⟨dist, neighbour⟩ else current

/-- Move until no neighbour is nearer. -/
def greedyLoop (query : List Coord) (layer : Nat) : Nat → Item Distance → Option Uuid
  | 0, _ => none
  | fuel + 1, current =>
      match index.layers[layer]? with
      | none => none
      | some lists =>
          let next := (lists.bucket current.id).foldl (index.greedyStep numbers query) current
          if next.dist < current.dist then greedyLoop query layer fuel next else some next.id

def greedySearchLayer (query : List Coord) (entry : Uuid) (layer : Nat) : Option Uuid :=
  match index.vectors.lookup entry with
  | none => none
  | some vector =>
      index.greedyLoop numbers query layer (index.vectors.keys.length + 1)
        ⟨numbers.euclidean query vector, entry⟩

/-- Greedy search from one layer down to another. -/
def descend (query : List Coord) (entry : Uuid) (top bottom : Nat) : Option Uuid :=
  (List.range' bottom (top + 1 - bottom)).reverse.foldlM (index.greedySearchLayer numbers query) entry

/-- Add a neighbour to the beam if it is new and near enough. -/
def offer (query : List Coord) (ef : Nat) (beam : Beam Distance) (neighbour : Uuid) :
    Beam Distance :=
  if neighbour ∈ beam.visited then beam
  else
    let beam := beam.visit neighbour
    match index.vectors.lookup neighbour with
    | none => beam
    | some vector =>
        let dist := numbers.euclidean query vector
        if beam.Wants dist ef then (beam.push ⟨dist, neighbour⟩).evict ef else beam

def beamLoop (query : List Coord) (ef layer : Nat) : Nat → Beam Distance →
    Option (List (Item Distance))
  | 0, _ => none
  | fuel + 1, beam =>
      match beam.candidates with
      | [] => some beam.result
      | current :: rest =>
          if beam.IsDone current ef then some beam.result
          else
            match index.layers[layer]? with
            | none => none
            | some lists =>
                beamLoop query ef layer fuel
                  ((lists.bucket current.id).foldl (index.offer numbers query ef)
                    { beam with candidates := rest })

def searchLayer (query : List Coord) (entryCandidates : List (Item Distance)) (ef layer : Nat) :
    Option (List (Item Distance)) :=
  index.beamLoop numbers query ef layer
    (entryCandidates.length + index.vectors.keys.length + 1) (.start entryCandidates)

/-- Machine words. -/
def word (number : Nat) : Nat := number % 2 ^ 64

def searchEf (k : Nat) (recallTarget : Recall) : Nat :=
  if numbers.isHigh recallTarget then
    max (max (numbers.efAdaptive k recallTarget) (word (k * 4))) 64
  else max (word (k * 2)) 16

def search (query : List Coord) (k : Nat) (recallTarget : Recall) :
    Option (List (Uuid × Distance)) :=
  match index.entryPoint with
  | none => some []
  | some (entry, entryLayer) =>
      if index.liveCount = 0 then some []
      else do
        let entry ← index.descend numbers query entry entryLayer 1
        let vector ← index.vectors.lookup entry
        let results ← index.searchLayer numbers query [⟨numbers.euclidean query vector, entry⟩]
          (searchEf numbers k recallTarget) 0
        let live := results.filter fun item => item.id ∉ index.tombstones
        return (live.take k).map fun item => (item.id, item.dist)

/-! ## Insertion -/

def selectNeighbours (nodeVector : List Coord) (candidates : List Uuid) (m : Nat) : List Uuid :=
  let scored := candidates.filterMap fun id =>
    (index.vectors.lookup id).map fun vector => (numbers.euclidean nodeVector vector, id)
  ((scored.insertionSort fun left right => left.1 ≤ right.1).take m).map Prod.snd

/-- How many neighbours a list of a layer may have. -/
def mMax (layer : Nat) : Nat := if layer = 0 then word (index.m * 2) else index.m

/-- Link a node and a neighbour in both directions, and prune the neighbour's list. -/
def linkLists (id : Uuid) (limit : Nat) (neighbour : Uuid) (vector : List Coord) (lists : Layer) :
    Layer :=
  let lists := (lists.push id neighbour).push neighbour id
  let neighbours := lists.bucket neighbour
  if limit < neighbours.length then
    lists.insert neighbour (index.selectNeighbours numbers vector neighbours limit)
  else lists

def connect (id : Uuid) (layer : Nat) (neighbour : Uuid) : Option (HnswIndex Coord) := do
  let lists ← index.layers[layer]?
  let vector ← index.vectors.lookup neighbour
  let lists := index.linkLists numbers id (index.mMax layer) neighbour vector lists
  return { index with layers := index.layers.set layer lists }

/-- Link a node in a layer and in all layers below it. -/
def linkLayers (id : Uuid) (vector : List Coord) : Nat → List (Item Distance) →
    HnswIndex Coord → Option (HnswIndex Coord)
  | 0, _, index => some index
  | layer + 1, entryCandidates, index => do
      let neighbours ← index.searchLayer numbers vector entryCandidates index.efConstruction layer
      let index ← (neighbours.take index.m).foldlM
        (fun index neighbour => index.connect numbers id layer neighbour.id) index
      linkLayers id vector layer neighbours index

def linkFrom (id : Uuid) (vector : List Coord) (nodeLayer : Nat) (entry : Uuid)
    (entryLayer : Nat) : Option (HnswIndex Coord) := do
  let entry ← index.descend numbers vector entry entryLayer (nodeLayer + 1)
  let entryVector ← index.vectors.lookup entry
  linkLayers numbers id vector (nodeLayer + 1) [⟨numbers.euclidean vector entryVector, entry⟩] index

/-- Store a vector, with an empty list in each of its layers. -/
def store (id : Uuid) (vector : List Coord) (nodeLayer : Nat) : HnswIndex Coord :=
  let layers := index.layers ++ List.replicate (nodeLayer + 1 - index.layers.length) ∅
  { index with
    vectors := index.vectors.insert id vector
    liveCount := index.liveCount + 1
    layers := layers.mapIdx fun place layer => if place ≤ nodeLayer then layer.touch id else layer }

def insert (id : Uuid) (vector : List Coord) : Option (Except HnswError Unit × HnswIndex Coord) :=
  if vector.length ≠ index.dims then
    some (.error (.dimensionMismatch index.dims vector.length), index)
  else
    let nodeLayer := numbers.randomLayer index.m id
    let index := index.store id vector nodeLayer
    match index.entryPoint with
    | none => some (.ok (), { index with entryPoint := some (id, nodeLayer) })
    | some (entry, entryLayer) => do
        let index ← index.linkFrom numbers id vector nodeLayer entry entryLayer
        return (.ok (), if entryLayer < nodeLayer then
          { index with entryPoint := some (id, nodeLayer) } else index)

/-! ## Deletion -/

def delete (id : Uuid) : Except HnswError Unit × HnswIndex Coord :=
  if id ∉ index.vectors then (.error (.notFound id), index)
  else if id ∈ index.tombstones then (.ok (), index)
  else (.ok (), { index with
    tombstones := id :: index.tombstones
    liveCount := index.liveCount - 1 })

/-- The first node of the highest layer that has some. -/
def survivor (order : KeyOrder) (layers : List Layer) : Option (Uuid × Nat) :=
  layers.zipIdx.reverse.findSome? fun place =>
    (order.arrange place.1.keys).head?.map fun id => (id, place.2)

def compact (order : KeyOrder) : HnswIndex Coord :=
  if index.tombstones = [] then index
  else
    let dead := index.tombstones
    let layers := index.layers.map (·.purge dead)
    { index with
      vectors := index.vectors.eraseAll dead
      tombstones := []
      layers := layers
      entryPoint :=
        match index.entryPoint with
        | none => none
        | some (entry, entryLayer) =>
            if entry ∈ dead then survivor order layers else some (entry, entryLayer) }

end HnswIndex

end FunDB.Hnsw
