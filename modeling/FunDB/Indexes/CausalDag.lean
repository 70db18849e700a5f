import FunDB.Core.CausalGraph

/-! # The causal DAG index

Insertion without cycles, paths between two nodes, a cache of paths, and what can be
reached from a node. -/

namespace FunDB.CausalDag

open GraphSearch StrongestWalks

/-- Paths with the product of the strengths of their edges. -/
structure CausalPath (S : Type) where
  nodes : List Uuid
  edges : List (CausalEdge S)
  totalStrength : S
deriving DecidableEq, Repr

inductive CausalError where
  | cycle (detectedAt : Uuid)
  | invalidStrength
deriving DecidableEq, Repr

structure CausalDagIndex (S : Type) where
  graph : EdgeMaps S
  closureCache : Dict (Uuid × Uuid) (List (CausalPath S))

namespace CausalDagIndex

variable {S : Type} [Strength S]

def new : CausalDagIndex S := ⟨.new, ∅⟩

def insertEdge (index : CausalDagIndex S) (edge : CausalEdge S) :
    Except CausalError Unit × CausalDagIndex S :=
  if ¬(0 ≤ edge.strength ∧ edge.strength ≤ 1) then (.error .invalidStrength, index)
  else if index.graph.canReach edge.targetId edge.sourceId then
    (.error (.cycle edge.targetId), index)
  else (.ok (), { index with graph := index.graph.push edge })

/-- Simple paths to the target that start with a path, with at most so many more
edges. -/
def dfsPaths (edgesOf : Uuid → List (CausalEdge S)) (target : Uuid) (minStrength : S) :
    Nat → Uuid → CausalPath S → List (CausalPath S)
  | hops, current, path =>
      if current = target ∧ path.edges ≠ [] then [path]
      else
        match hops with
        | 0 => []
        | hops + 1 => (edgesOf current).flatMap fun edge =>
            let strength := path.totalStrength * edge.strength
            if minStrength ≤ strength ∧ edge.targetId ∉ path.nodes then
              dfsPaths edgesOf target minStrength hops edge.targetId
                ⟨path.nodes ++ [edge.targetId], path.edges ++ [edge], strength⟩
            else []

/-- The search of `paths` where nothing is cached. -/
def searchPaths (index : CausalDagIndex S) (source target : Uuid) (maxDepth : Nat)
    (minStrength : S) : List (CausalPath S) :=
  dfsPaths index.graph.adjacency.bucket target minStrength maxDepth source ⟨[source], [], 1⟩

def paths (index : CausalDagIndex S) (source target : Uuid) (maxDepth : UInt32)
    (minStrength : S) : List (CausalPath S) :=
  match index.closureCache.lookup (source, target) with
  | some cached => cached.filter fun path => minStrength ≤ path.totalStrength
  | none => index.searchPaths source target maxDepth.toNat minStrength

def materializeClosure (index : CausalDagIndex S) (source target : Uuid) : CausalDagIndex S where
  graph := index.graph
  closureCache := index.closureCache.insert (source, target) (index.searchPaths source target 10 0)

section Reachable

variable {S : Type} [LinearOrder S] [Mul S] [One S]

/-- The traversal with a stack, which best strengths alone prune. -/
def traverseReachable (start : Uuid) (maxDepth : UInt32) (edges : Uuid → List (Uuid × S)) :
    Option (List (Uuid × S)) :=
  reach onTop edges maxDepth.toNat start

def effects (index : CausalDagIndex S) (source : Uuid) (maxDepth : UInt32) :
    Option (List (Uuid × S)) :=
  traverseReachable source maxDepth index.graph.forward

def causes (index : CausalDagIndex S) (target : Uuid) (maxDepth : UInt32) :
    Option (List (Uuid × S)) :=
  traverseReachable target maxDepth index.graph.backward

end Reachable

end CausalDagIndex

end FunDB.CausalDag
