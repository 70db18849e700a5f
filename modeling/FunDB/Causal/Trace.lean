import FunDB.Causal.Tier1
import FunDB.Indexes.CausalPaths

/-! # Traces of the causal engine

Each path between two nodes whose edges pass the filters is found once. -/

namespace FunDB.Tier1

open CausalDag (Continues SimplePath simplePath_iff)
open EdgePaths (Enumerates enumerates_end enumerates_nothing exists_enumerates_flatMap)

structure TraceOptions (S : Type) where
  maxDepth : UInt32
  minStrength : S
  minStability : Option S
deriving DecidableEq, Repr

/-- A path with the product of its strengths and the least of 1 and its stabilities. -/
structure CausalPath (S : Type) where
  nodes : List Uuid
  edges : List (CausalEdge S)
  totalStrength : S
  minStability : S
deriving DecidableEq, Repr

variable {S : Type} [LinearOrder S] [Mul S] [One S]

/-- The stability of an edge without a score is 1. -/
def stability (edge : CausalEdge S) : S := edge.stabilityScore.getD 1

/-- Neither filter drops the edge. -/
def TraceOptions.admits (opts : TraceOptions S) (edge : CausalEdge S) : Bool :=
  if edge.strength < opts.minStrength then false
  else
    match opts.minStability with
    | some minStab => ¬stability edge < minStab
    | none => true

namespace CausalPath

def follow (path : CausalPath S) (edge : CausalEdge S) : CausalPath S where
  nodes := path.nodes ++ [edge.targetId]
  edges := path.edges ++ [edge]
  totalStrength := path.totalStrength * edge.strength
  minStability := min path.minStability (stability edge)

def along (source : Uuid) (edges : List (CausalEdge S)) : CausalPath S where
  nodes := source :: edges.map CausalEdge.targetId
  edges := edges
  totalStrength := (edges.map CausalEdge.strength).foldl (· * ·) 1
  minStability := (edges.map stability).foldl min 1

end CausalPath

namespace CausalEngine

/-- Simple paths to the target that start with a path, with at most so many more
edges. -/
def dfsTrace (edgesOf : Uuid → List (CausalEdge S)) (target : Uuid) (opts : TraceOptions S) :
    Nat → Uuid → CausalPath S → List (CausalPath S)
  | hops, current, path =>
      if current = target ∧ path.edges ≠ [] then [path]
      else
        match hops with
        | 0 => []
        | hops + 1 => (edgesOf current).flatMap fun edge =>
            if opts.admits edge ∧ edge.targetId ∉ path.nodes then
              dfsTrace edgesOf target opts hops edge.targetId (path.follow edge)
            else []

def trace (engine : CausalEngine S) (source target : Uuid) (opts : TraceOptions S) :
    List (CausalPath S) :=
  dfsTrace engine.graph.adjacency.bucket target opts opts.maxDepth.toNat source
    ⟨[source], [], 1, 1⟩

end CausalEngine

/-! ## The search -/

open CausalEngine

structure Completes (edgesOf : Uuid → List (CausalEdge S)) (target : Uuid) (opts : TraceOptions S)
    (hops : Nat) (current : Uuid) (path : CausalPath S) (edges : List (CausalEdge S)) : Prop where
  continues : Continues edgesOf target path.nodes current edges
  some : path.edges ++ edges ≠ []
  short : edges.length ≤ hops
  admitted : ∀ edge ∈ edges, opts.admits edge

section Search

variable {edgesOf : Uuid → List (CausalEdge S)} {target current : Uuid} {opts : TraceOptions S}
variable {hops : Nat} {path : CausalPath S} {edges : List (CausalEdge S)}

omit [Mul S] in
theorem Completes.ne_nil (completes : Completes edgesOf target opts hops current path edges)
    (going : ¬(current = target ∧ path.edges ≠ [])) : edges ≠ [] := by
  rintro rfl
  exact going ⟨completes.continues, List.append_nil path.edges ▸ completes.some⟩

/-- A first edge completes a path together with what completes the longer path. -/
theorem completes_cons_iff {edge : CausalEdge S} (isEdge : edge ∈ edgesOf current) :
    Completes edgesOf target opts (hops + 1) current path (edge :: edges) ↔
      (opts.admits edge ∧ edge.targetId ∉ path.nodes) ∧
        Completes edgesOf target opts hops edge.targetId (path.follow edge) edges := by
  constructor
  · rintro ⟨⟨-, new, continues⟩, -, short, admitted⟩
    rcases List.forall_mem_cons.mp admitted with ⟨first, others⟩
    refine ⟨⟨first, new⟩, continues, ?_, Nat.le_of_succ_le_succ short, others⟩
    exact List.append_ne_nil_of_left_ne_nil
      (List.append_ne_nil_of_right_ne_nil _ (List.cons_ne_nil _ _)) _
  · rintro ⟨⟨first, new⟩, continues, -, short, others⟩
    refine ⟨⟨isEdge, new, continues⟩, ?_, Nat.succ_le_succ short,
      List.forall_mem_cons.mpr ⟨first, others⟩⟩
    exact List.append_ne_nil_of_right_ne_nil _ (List.cons_ne_nil _ _)

theorem exists_enumerates_of_end (isNode : current ∈ path.nodes)
    (ended : current = target ∧ path.edges ≠ []) :
    ∃ ways, Enumerates CausalEdge.targetId edgesOf current
      (Completes edgesOf target opts hops current path)
      (fun edges => edges.foldl CausalPath.follow path) [path] ways := by
  refine ⟨[[]], enumerates_end fun edges => ⟨fun completes => ?_, ?_⟩⟩
  · exact completes.continues.eq_nil (ended.1 ▸ isNode)
  · rintro rfl
    exact ⟨ended.1, List.append_ne_nil_of_left_ne_nil ended.2 _, Nat.zero_le _,
      fun _ isIn => nomatch isIn⟩

/-- The search finds each way to complete a path once. -/
theorem exists_enumerates_dfsTrace (isNode : current ∈ path.nodes) :
    ∃ ways, Enumerates CausalEdge.targetId edgesOf current
      (Completes edgesOf target opts hops current path)
      (fun edges => edges.foldl CausalPath.follow path)
      (dfsTrace edgesOf target opts hops current path) ways := by
  induction hops generalizing current path with
  | zero =>
      rw [dfsTrace]
      split
      · next ended => exact exists_enumerates_of_end isNode ended
      · next going =>
          refine ⟨[], enumerates_nothing fun edges completes => completes.ne_nil going ?_⟩
          exact List.eq_nil_of_length_eq_zero (Nat.le_zero.mp completes.short)
  | succ hops induction =>
      rw [dfsTrace]
      split
      · next ended => exact exists_enumerates_of_end isNode ended
      · next going =>
          apply exists_enumerates_flatMap
          · exact fun edges completes => List.exists_cons_of_ne_nil (completes.ne_nil going)
          · exact fun edge isEdge rest => completes_cons_iff isEdge
          · intro edge isEdge
            by_cases taken : opts.admits edge ∧ edge.targetId ∉ path.nodes
            · have isEnd : edge.targetId ∈ (path.follow edge).nodes :=
                List.mem_append_right _ List.mem_cons_self
              rcases induction isEnd with ⟨ways, enumerates⟩
              refine ⟨ways, ?_⟩
              rw [if_pos taken]
              exact enumerates.congr (fun _ _ _ => (and_iff_right taken).symm) fun _ => rfl
            · refine ⟨[], ?_⟩
              rw [if_neg taken]
              exact enumerates_nothing fun _ both => taken both.1

end Search

/-! ## All paths -/

theorem foldl_follow (path : CausalPath S) (edges : List (CausalEdge S)) :
    edges.foldl CausalPath.follow path =
      ⟨path.nodes ++ edges.map CausalEdge.targetId, path.edges ++ edges,
        (edges.map CausalEdge.strength).foldl (· * ·) path.totalStrength,
        (edges.map stability).foldl min path.minStability⟩ := by
  induction edges generalizing path with
  | nil => simp
  | cons edge edges induction =>
      rw [List.foldl_cons, induction]
      simp only [CausalPath.follow, List.map_cons, List.foldl_cons, List.append_assoc,
        List.singleton_append]

omit [Mul S] in
theorem TraceOptions.admits_iff (opts : TraceOptions S) (edge : CausalEdge S) :
    opts.admits edge ↔ opts.minStrength ≤ edge.strength ∧
      ∀ minStab ∈ opts.minStability, minStab ≤ stability edge := by
  unfold admits
  split
  · next weak =>
      exact iff_of_false Bool.false_ne_true fun both => weak.not_ge both.1
  · next strong =>
      rw [and_iff_right (not_lt.mp strong)]
      cases opts.minStability with
      | none => simp
      | some minStab => simp

/-- A trace has each simple path of at most so many edges that all pass the filters
once. -/
theorem trace_exact (inserted : List (CausalEdge S)) (source target : Uuid)
    (opts : TraceOptions S) :
    ∃ ways, Enumerates CausalEdge.targetId (afterInserts inserted).graph.adjacency.bucket source
      (fun edges => SimplePath source target edges ∧ edges.length ≤ opts.maxDepth.toNat ∧
        ∀ edge ∈ edges, opts.minStrength ≤ edge.strength ∧
          ∀ minStab ∈ opts.minStability, minStab ≤ stability edge)
      (CausalPath.along source) ((afterInserts inserted).trace source target opts) ways := by
  have isStart : source ∈ (⟨[source], [], 1, 1⟩ : CausalPath S).nodes := List.mem_cons_self
  have searched : ∃ ways, Enumerates CausalEdge.targetId
      (afterInserts inserted).graph.adjacency.bucket source
      (Completes _ target opts opts.maxDepth.toNat source ⟨[source], [], 1, 1⟩)
      (fun edges => edges.foldl CausalPath.follow ⟨[source], [], 1, 1⟩)
      ((afterInserts inserted).trace source target opts) ways :=
    exists_enumerates_dfsTrace isStart
  rcases searched with ⟨ways, enumerates⟩
  refine ⟨ways, enumerates.congr (fun way edges found => ?_) (foldl_follow _)⟩
  rw [simplePath_iff (sound_afterInserts inserted).bySource found]
  have filters : (∀ edge ∈ edges, opts.admits edge) ↔ ∀ edge ∈ edges,
      opts.minStrength ≤ edge.strength ∧ ∀ minStab ∈ opts.minStability, minStab ≤ stability edge :=
    forall₂_congr fun edge _ => opts.admits_iff edge
  rw [← filters]
  constructor
  · rintro ⟨continues, nonempty, short, admitted⟩
    exact ⟨⟨nonempty, continues⟩, short, admitted⟩
  · rintro ⟨⟨nonempty, continues⟩, short, admitted⟩
    exact ⟨continues, nonempty, short, admitted⟩

/-- Two equal edges and a longer way, of which the filter on the stability drops one edge. -/
def sampleEdges : List (CausalEdge ℚ) :=
  [{ declaredEdge (.ofByte 1) (.ofByte 2) (1 / 2) with stabilityScore := some (3 / 4) },
    { declaredEdge (.ofByte 1) (.ofByte 2) (1 / 2) with stabilityScore := some (3 / 4) },
    { declaredEdge (.ofByte 1) (.ofByte 3) 1 with stabilityScore := some (1 / 4) },
    declaredEdge (.ofByte 3) (.ofByte 2) 1]

example : ((afterInserts sampleEdges).trace (.ofByte 1) (.ofByte 2) ⟨2, 0, some (1 / 2)⟩).map
    (fun path => (path.nodes, path.totalStrength, path.minStability)) =
      [([.ofByte 1, .ofByte 2], 1 / 2, 3 / 4), ([.ofByte 1, .ofByte 2], 1 / 2, 3 / 4)] := by
  decide +kernel

end FunDB.Tier1
