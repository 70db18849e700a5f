import FunDB.Foundation.EdgePaths
import FunDB.Indexes.ClosureCache
import Mathlib.Algebra.BigOperators.Group.List.Basic

/-! # Paths of the causal DAG index

A search without a cache finds each path once. Equal edges count as different ones, so
a path is told by the place of each edge in the list of its source. -/

namespace FunDB.CausalDag

open CausalPath
open EdgePaths

/-! ## The search -/

section Search

variable {S : Type} [Strength S]
variable {edgesOf : Uuid → List (CausalEdge S)} {target current : Uuid} {minStrength : S}
variable {hops : Nat} {path : CausalPath S}

theorem exists_enumerates_of_end (isNode : current ∈ path.nodes)
    (ended : current = target ∧ path.edges ≠ []) (strong : minStrength ≤ path.totalStrength) :
    ∃ ways, Enumerates CausalEdge.targetId edgesOf current
      (Completes edgesOf target minStrength hops current path)
      (fun edges => edges.foldl follow path) [path] ways := by
  refine ⟨[[]], enumerates_end fun edges => ⟨fun completes => ?_, ?_⟩⟩
  · exact completes.continues.eq_nil (ended.1 ▸ isNode)
  · rintro rfl
    exact ⟨ended.1, List.append_ne_nil_of_left_ne_nil ended.2 _, Nat.zero_le _, strong⟩

/-- The search finds each way to complete a path once. -/
theorem exists_enumerates_dfsPaths (valid : ValidStrengths edgesOf)
    (bounded : 0 ≤ path.totalStrength ∧ path.totalStrength ≤ 1) (isNode : current ∈ path.nodes)
    (strong : path.edges ≠ [] → minStrength ≤ path.totalStrength) :
    ∃ ways, Enumerates CausalEdge.targetId edgesOf current
      (Completes edgesOf target minStrength hops current path)
      (fun edges => edges.foldl follow path)
      (CausalDagIndex.dfsPaths edgesOf target minStrength hops current path) ways := by
  induction hops generalizing current path with
  | zero =>
      rw [CausalDagIndex.dfsPaths]
      split
      · next ended => exact exists_enumerates_of_end isNode ended (strong ended.2)
      · next going =>
          refine ⟨[], enumerates_nothing fun edges completes => completes.ne_nil going ?_⟩
          exact List.eq_nil_of_length_eq_zero (Nat.le_zero.mp completes.short)
  | succ hops induction =>
      rw [CausalDagIndex.dfsPaths]
      split
      · next ended => exact exists_enumerates_of_end isNode ended (strong ended.2)
      · next going =>
          apply exists_enumerates_flatMap
          · exact fun edges completes => List.exists_cons_of_ne_nil (completes.ne_nil going)
          · exact fun edge isEdge rest => completes_cons_iff valid bounded isEdge
          · intro edge isEdge
            by_cases taken : minStrength ≤ path.totalStrength * edge.strength ∧
                edge.targetId ∉ path.nodes
            · have followed : ∃ ways, Enumerates CausalEdge.targetId edgesOf edge.targetId
                  (Completes edgesOf target minStrength hops edge.targetId (path.follow edge))
                  (fun rest => rest.foldl follow (path.follow edge))
                  (CausalDagIndex.dfsPaths edgesOf target minStrength hops edge.targetId
                    (path.follow edge)) ways := by
                apply induction (bounded_follow bounded (valid _ edge isEdge)).1
                · exact List.mem_append_right _ List.mem_cons_self
                · exact fun _ => taken.1
              rcases followed with ⟨ways, enumerates⟩
              refine ⟨ways, ?_⟩
              dsimp only
              rw [if_pos taken]
              exact enumerates.congr (fun _ _ _ => (and_iff_right taken).symm) fun _ => rfl
            · refine ⟨[], ?_⟩
              dsimp only
              rw [if_neg taken]
              exact enumerates_nothing fun _ both => taken both.1

end Search

/-! ## Simple paths -/

/-- Edges over which one node leads to another, over no node twice. -/
structure SimplePath {S : Type} (source target : Uuid) (edges : List (CausalEdge S)) : Prop where
  nonempty : edges ≠ []
  linked : edges.map CausalEdge.sourceId = (source :: edges.map CausalEdge.targetId).dropLast
  ends : (source :: edges.map CausalEdge.targetId).getLast? = some target
  distinct : (source :: edges.map CausalEdge.targetId).Nodup

/-- The path over some edges, with its nodes and the product of the strengths. -/
def pathOver (source : Uuid) (edges : List (CausalEdge ℚ)) : CausalPath ℚ where
  nodes := source :: edges.map CausalEdge.targetId
  edges := edges
  totalStrength := (edges.map CausalEdge.strength).prod

theorem foldl_follow (path : CausalPath ℚ) (edges : List (CausalEdge ℚ)) :
    edges.foldl follow path = ⟨path.nodes ++ edges.map CausalEdge.targetId, path.edges ++ edges,
      path.totalStrength * (edges.map CausalEdge.strength).prod⟩ := by
  induction edges generalizing path with
  | nil => simp
  | cons edge edges induction =>
      rw [List.foldl_cons, induction]
      simp only [follow, List.map_cons, List.prod_cons, List.append_assoc, List.singleton_append,
        mul_assoc]

theorem along_eq_pathOver (source : Uuid) (edges : List (CausalEdge ℚ)) :
    along source edges = pathOver source edges := by
  rw [along, foldl_follow, pathOver, List.singleton_append, List.nil_append, one_mul]

section Simple

variable {S : Type} {edgesOf : Uuid → List (CausalEdge S)} {target current : Uuid}
variable {way : List Nat} {edges : List (CausalEdge S)}

/-- Edges of the graph continue to the target if their ends are new nodes. -/
theorem continues_iff {seen : List Uuid}
    (found : edgesAt CausalEdge.targetId edgesOf current way = some edges) :
    Continues edgesOf target seen current edges ↔
      (current :: edges.map CausalEdge.targetId).getLast? = some target ∧
        (edges.map CausalEdge.targetId).Nodup ∧ ∀ edge ∈ edges, edge.targetId ∉ seen := by
  induction edges generalizing current way seen with
  | nil => simp [Continues]
  | cons edge edges induction =>
      cases way with
      | nil => cases found
      | cons place places =>
          rcases edgesAt_cons_eq_some_iff.mp found with ⟨_, _, isEdge, rest, same⟩
          cases same
          have isIn : edge ∈ edgesOf current := List.mem_of_getElem? isEdge
          have apart : (∀ other ∈ edges, other.targetId ∉ seen ++ [edge.targetId]) ↔
              edge.targetId ∉ edges.map CausalEdge.targetId ∧
                ∀ other ∈ edges, other.targetId ∉ seen := by
            simp only [List.mem_append, List.mem_singleton, List.mem_map, not_or, not_exists,
              not_and]
            exact ⟨fun all => ⟨fun other isOther => (all other isOther).2,
              fun other isOther => (all other isOther).1⟩,
              fun both other isOther => ⟨both.2 other isOther, both.1 other isOther⟩⟩
          rw [Continues, induction rest, apart, List.map_cons, List.getLast?_cons_cons,
            List.nodup_cons, List.forall_mem_cons]
          tauto

theorem edgesAt_linked (filed : ∀ node, ∀ edge ∈ edgesOf node, edge.sourceId = node)
    (found : edgesAt CausalEdge.targetId edgesOf current way = some edges) :
    edges.map CausalEdge.sourceId = (current :: edges.map CausalEdge.targetId).dropLast := by
  induction edges generalizing current way with
  | nil => rfl
  | cons edge edges induction =>
      cases way with
      | nil => cases found
      | cons place places =>
          rcases edgesAt_cons_eq_some_iff.mp found with ⟨_, _, isEdge, rest, same⟩
          cases same
          rw [List.map_cons, List.map_cons, induction rest, List.dropLast_cons_cons,
            filed current edge (List.mem_of_getElem? isEdge)]

/-- Edges of the graph make a simple path if they lead on over new nodes. -/
theorem simplePath_iff (filed : ∀ node, ∀ edge ∈ edgesOf node, edge.sourceId = node)
    (found : edgesAt CausalEdge.targetId edgesOf current way = some edges) :
    SimplePath current target edges ↔
      edges ≠ [] ∧ Continues edgesOf target [current] current edges := by
  rw [continues_iff found]
  constructor
  · rintro ⟨nonempty, -, ends, distinct⟩
    rcases List.nodup_cons.mp distinct with ⟨new, others⟩
    refine ⟨nonempty, ends, others, fun edge isEdge isStart => new ?_⟩
    have same : edge.targetId = current := List.mem_singleton.mp isStart
    exact same ▸ List.mem_map_of_mem isEdge
  · rintro ⟨nonempty, ends, others, new⟩
    refine ⟨nonempty, edgesAt_linked filed found, ends,
      List.nodup_cons.mpr ⟨fun isIn => ?_, others⟩⟩
    rcases List.mem_map.mp isIn with ⟨edge, isEdge, same⟩
    exact new edge isEdge (same ▸ List.mem_singleton_self _)

end Simple

open CausalDagIndex

/-- The paths between two nodes are all simple paths of at most so many edges, and at
least so strong, each of them once. -/
theorem paths_exact (inserted : List (CausalEdge ℚ)) (source target : Uuid) (maxDepth : UInt32)
    (minStrength : ℚ) :
    ∃ ways, Enumerates CausalEdge.targetId (afterInserts inserted).graph.adjacency.bucket source
      (fun edges => SimplePath source target edges ∧ edges.length ≤ maxDepth.toNat ∧
        minStrength ≤ (edges.map CausalEdge.strength).prod)
      (pathOver source)
      ((afterInserts inserted).paths source target maxDepth minStrength) ways := by
  have valid := validStrengths_afterInserts inserted
  have uncached : (afterInserts inserted).closureCache.lookup (source, target) = none := by
    rw [closureCache_afterInserts]
    rfl
  let edgesOf := (afterInserts inserted).graph.adjacency.bucket
  have searched : ∃ ways, Enumerates CausalEdge.targetId edgesOf source
      (Completes edgesOf target minStrength maxDepth.toNat source (along source []))
      (along source) ((afterInserts inserted).paths source target maxDepth minStrength) ways := by
    rw [CausalDagIndex.paths, uncached]
    exact exists_enumerates_dfsPaths valid bounded_start List.mem_cons_self (absurd rfl)
  rcases searched with ⟨ways, enumerates⟩
  refine ⟨ways, enumerates.congr (fun way edges found => ?_) (along_eq_pathOver source)⟩
  have total : (edges.foldl follow (along source [])).totalStrength =
      (edges.map CausalEdge.strength).prod :=
    congrArg CausalPath.totalStrength (along_eq_pathOver source edges)
  rw [simplePath_iff (sound_afterInserts inserted).bySource found, ← total]
  constructor
  · rintro ⟨continues, nonempty, short, strong⟩
    exact ⟨⟨nonempty, continues⟩, short, strong⟩
  · rintro ⟨⟨nonempty, continues⟩, short, strong⟩
    exact ⟨continues, nonempty, short, strong⟩

end FunDB.CausalDag
