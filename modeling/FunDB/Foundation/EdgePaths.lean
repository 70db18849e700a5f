import Mathlib.Data.List.Nodup

/-! # Paths of edges

Equal edges of a graph may count as different ones. Then a path is told by the place of
each of its edges in the list of the node that the edge starts at. -/

namespace FunDB.EdgePaths

universe u v w

variable {Node : Type u} {Edge : Type v} {Result : Type w}
variable (target : Edge → Node)

/-- The edges at some places. Each edge is in the list of the node that the edges before
it lead to. -/
def edgesAt (edgesOf : Node → List Edge) : Node → List Nat → Option (List Edge)
  | _, [] => some []
  | node, place :: places => do
      let edge ← (edgesOf node)[place]?
      let edges ← edgesAt edgesOf (target edge) places
      return edge :: edges

/-- The results are built from the edges at different places, and these are all the
places of wanted edges. -/
structure Enumerates (edgesOf : Node → List Edge) (source : Node) (wanted : List Edge → Prop)
    (build : List Edge → Result) (results : List Result) (ways : List (List Nat)) : Prop where
  nodup : ways.Nodup
  mem_iff : ∀ way, way ∈ ways ↔
    ∃ edges, edgesAt target edgesOf source way = some edges ∧ wanted edges
  results : ways.map (fun way => (edgesAt target edgesOf source way).map build) = results.map some

variable {target} {edgesOf : Node → List Edge} {source : Node}
variable {wanted : List Edge → Prop} {build : List Edge → Result}

theorem edgesAt_cons {place : Nat} {places : List Nat} {edge : Edge}
    (isEdge : (edgesOf source)[place]? = some edge) :
    edgesAt target edgesOf source (place :: places) =
      (edgesAt target edgesOf (target edge) places).map (edge :: ·) := by
  rw [edgesAt, isEdge]
  dsimp only [Option.bind_eq_bind, Option.bind_some]
  cases edgesAt target edgesOf (target edge) places with
  | none => rfl
  | some rest => rfl

theorem edgesAt_cons_eq_some_iff {place : Nat} {places : List Nat} {edges : List Edge} :
    edgesAt target edgesOf source (place :: places) = some edges ↔
      ∃ edge rest, (edgesOf source)[place]? = some edge ∧
        edgesAt target edgesOf (target edge) places = some rest ∧ edges = edge :: rest := by
  constructor
  · intro found
    rcases Option.bind_eq_some_iff.mp found with ⟨edge, isEdge, found⟩
    rcases Option.bind_eq_some_iff.mp found with ⟨rest, isRest, same⟩
    exact ⟨edge, rest, isEdge, isRest, (Option.some_inj.mp same).symm⟩
  · rintro ⟨edge, rest, isEdge, isRest, rfl⟩
    rw [edgesAt_cons isEdge, isRest]
    rfl

theorem enumerates_nothing (none : ∀ edges, ¬wanted edges) :
    Enumerates target edgesOf source wanted build [] [] where
  nodup := .nil
  mem_iff _ := iff_of_false List.not_mem_nil fun ⟨edges, _, isWanted⟩ => none edges isWanted
  results := rfl

theorem enumerates_end (only : ∀ edges, wanted edges ↔ edges = []) :
    Enumerates target edgesOf source wanted build [build []] [[]] where
  nodup := List.nodup_singleton _
  mem_iff way := by
    rw [List.mem_singleton]
    constructor
    · rintro rfl
      exact ⟨[], rfl, (only []).mpr rfl⟩
    · rintro ⟨edges, found, isWanted⟩
      rw [(only edges).mp isWanted] at found
      cases way with
      | nil => rfl
      | cons place places =>
          rcases edgesAt_cons_eq_some_iff.mp found with ⟨edge, rest, -, -, impossible⟩
          cases impossible
  results := rfl

theorem nodup_zipIdx_flatMap {Item : Type v} (items : List Item) (waysOf : Item → List (List Nat))
    (distinct : ∀ item ∈ items, (waysOf item).Nodup) :
    (items.zipIdx.flatMap fun entry => (waysOf entry.1).map (entry.2 :: ·)).Nodup := by
  apply List.nodup_flatMap.mpr
  constructor
  · intro entry isEntry
    have isItem : entry.1 ∈ items := List.fst_mem_of_mem_zipIdx isEntry
    exact (distinct entry.1 isItem).map fun _ _ same => (List.cons.inj same).2
  · have places : (items.zipIdx.map Prod.snd).Nodup := by
      rw [List.zipIdx_map_snd]
      exact List.nodup_range'
    apply (List.pairwise_map.mp places).imp
    rintro first second different way ofFirst ofSecond
    rcases List.mem_map.mp ofFirst with ⟨rest, -, rfl⟩
    rcases List.mem_map.mp ofSecond with ⟨other, -, same⟩
    exact different (List.cons.inj same).1.symm

theorem Enumerates.congr {results : List Result} {ways : List (List Nat)}
    {wantedToo : List Edge → Prop} {buildToo : List Edge → Result}
    (enumerates : Enumerates target edgesOf source wanted build results ways)
    (same : ∀ way edges, edgesAt target edgesOf source way = some edges →
      (wanted edges ↔ wantedToo edges))
    (built : ∀ edges, build edges = buildToo edges) :
    Enumerates target edgesOf source wantedToo buildToo results ways where
  nodup := enumerates.nodup
  mem_iff way := by
    rw [enumerates.mem_iff]
    apply exists_congr
    intro edges
    exact and_congr_right (same way edges)
  results := by
    rw [← enumerates.results]
    apply List.map_congr_left
    intro way _
    exact congrArg (Option.map · _) (funext built).symm

/-- What is found over the edges of a node is what is found behind each of them. -/
theorem exists_enumerates_flatMap {found : Edge → List Result}
    {wantedBehind : Edge → List Edge → Prop}
    (wants : ∀ edges, wanted edges → ∃ edge rest, edges = edge :: rest)
    (wantedCons : ∀ edge ∈ edgesOf source, ∀ rest,
      wanted (edge :: rest) ↔ wantedBehind edge rest)
    (each : ∀ edge ∈ edgesOf source, ∃ ways, Enumerates target edgesOf (target edge)
      (wantedBehind edge) (fun rest => build (edge :: rest)) (found edge) ways) :
    ∃ ways, Enumerates target edgesOf source wanted build ((edgesOf source).flatMap found)
      ways := by
  choose! waysOf enumerates using each
  refine ⟨(edgesOf source).zipIdx.flatMap fun entry => (waysOf entry.1).map (entry.2 :: ·),
    ?_, ?_, ?_⟩
  · exact nodup_zipIdx_flatMap _ _ fun edge isEdge => (enumerates edge isEdge).nodup
  · intro way
    rw [List.mem_flatMap]
    constructor
    · rintro ⟨⟨edge, place⟩, isEntry, isWay⟩
      rcases List.mem_map.mp isWay with ⟨rest, isRest, rfl⟩
      have isEdge : edge ∈ edgesOf source := List.fst_mem_of_mem_zipIdx isEntry
      rcases ((enumerates edge isEdge).mem_iff rest).mp isRest with ⟨edges, found, isWanted⟩
      refine ⟨edge :: edges, edgesAt_cons_eq_some_iff.mpr ⟨edge, edges, ?_, found, rfl⟩, ?_⟩
      · exact List.mem_zipIdx_iff_getElem?.mp isEntry
      · exact (wantedCons edge isEdge edges).mpr isWanted
    · rintro ⟨edges, found, isWanted⟩
      rcases wants edges isWanted with ⟨edge, rest, rfl⟩
      cases way with
      | nil => cases found
      | cons place places =>
          rcases edgesAt_cons_eq_some_iff.mp found with ⟨_, _, isEdge, isRest, same⟩
          cases same
          have isIn : edge ∈ edgesOf source := List.mem_of_getElem? isEdge
          refine ⟨(edge, place), List.mem_zipIdx_iff_getElem?.mpr isEdge, List.mem_map_of_mem ?_⟩
          exact ((enumerates edge isIn).mem_iff places).mpr
            ⟨rest, isRest, (wantedCons edge isIn rest).mp isWanted⟩
  · have numbered : (edgesOf source).flatMap (fun edge => (found edge).map some) =
        (edgesOf source).zipIdx.flatMap fun entry => (found entry.1).map some := by
      conv_lhs => rw [← List.zipIdx_map_fst 0 (edgesOf source)]
      exact List.flatMap_map _ _ _
    rw [List.map_flatMap, List.map_flatMap, numbered]
    apply List.flatMap_congr
    intro entry isEntry
    have isEdge : entry.1 ∈ edgesOf source := List.fst_mem_of_mem_zipIdx isEntry
    rw [List.map_map, ← (enumerates entry.1 isEdge).results]
    apply List.map_congr_left
    intro way _
    rw [Function.comp_apply, edgesAt_cons (List.mem_zipIdx_iff_getElem?.mp isEntry), Option.map_map]
    rfl

end FunDB.EdgePaths
